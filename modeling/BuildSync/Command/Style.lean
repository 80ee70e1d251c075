/-!
Colours on a terminal.
-/

namespace BuildSync

inductive Style where
  | bold
  | green
  | red
  | cyan
  | boldGreen
  | boldRed
  deriving DecidableEq, Repr

namespace Style

def code : Style → String
  | bold => "\x1b[1m"
  | green => "\x1b[32m"
  | red => "\x1b[31m"
  | cyan => "\x1b[36m"
  | boldGreen => "\x1b[1;32m"
  | boldRed => "\x1b[1;31m"

def reset : List Char := ['\x1b', '[', '0', 'm']

def resumed (style : List Char) : List Char → List Char
  | [] => []
  | '\x1b' :: '[' :: '0' :: 'm' :: rest => reset ++ style ++ resumed style rest
  | c :: rest => c :: resumed style rest

def paint (style : Style) (colored : Bool) (text : String) : String :=
  if colored then
    style.code ++ String.ofList (resumed style.code.toList text.toList ++ reset)
  else text

end Style

end BuildSync
