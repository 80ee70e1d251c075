/-!
Relative paths as text, with names set apart by slashes. The names of a path are listed innermost
first, so that a parent is a tail.
-/

namespace BuildSync.Path

def pieces : List Char → List (List Char) → List (List Char)
  | [], done => done
  | '/' :: rest, done => pieces rest ([] :: done)
  | c :: rest, [] => pieces rest [[c]]
  | c :: rest, piece :: done => pieces rest ((piece ++ [c]) :: done)

def names (path : String) : List String := (pieces path.toList [[]]).map String.ofList

def endsOpen (path : String) : Bool := (names path).head? == some ""

def ofNames (names : List String) : String := String.intercalate "/" names.reverse

def trim : List String → List String
  | c :: d :: rest => if c = "" ∨ c = "." then trim (d :: rest) else c :: d :: rest
  | names => names

def parentNames : List String → List (List String)
  | [] => []
  | c :: rest =>
    if (c = "" ∨ c = ".") ∧ rest ≠ [] then parentNames rest
    else if rest = [] then []
    else trim rest :: parentNames rest

def parents (path : String) : List String := (parentNames (names path)).map ofNames

def parent? (path : String) : Option String := (parents path).head?

def fileName? (path : String) : Option String :=
  match trim (names path) with
  | [] => none
  | c :: _ => if c = "" ∨ c = "." ∨ c = ".." then none else some c

def extension? (path : String) : Option String :=
  (fileName? path).bind fun name =>
    let back := name.toList.reverse
    match back.dropWhile (· ≠ '.') with
    | [] => none
    | [_] => none
    | _ => some (String.ofList (back.takeWhile (· ≠ '.')).reverse)

def sibling (path name : String) : String :=
  match fileName? path, parent? path with
  | some _, some above => above ++ "/" ++ name
  | some _, none => name
  | none, _ => if endsOpen path then path ++ name else path ++ "/" ++ name

end BuildSync.Path
