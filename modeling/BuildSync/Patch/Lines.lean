namespace BuildSync

def splitLines : List Char → List (List Char)
  | [] => []
  | '\r' :: '\n' :: rest => ['\r', '\n'] :: splitLines rest
  | c :: rest =>
    if c = '\n' ∨ c = '\r' then [c] :: splitLines rest
    else
      match splitLines rest with
      | [] => [[c]]
      | line :: lines => (c :: line) :: lines

theorem flatten_splitLines (cs : List Char) : (splitLines cs).flatten = cs := by
  fun_induction splitLines cs with
  | case1 => rfl
  | case2 rest ih => simp [ih]
  | case3 c rest _ _ ih => simp [ih]
  | case4 c rest _ _ h ih =>
    rw [h] at ih
    simp [← ih]
  | case5 c rest _ _ line lines h ih =>
    rw [h] at ih
    simp [← ih]

def linesOf (text : String) : List String := (splitLines text.toList).map String.ofList

def endsLine (line : String) : Bool :=
  match line.toList.getLast? with
  | some c => c == '\n' || c == '\r'
  | none => false

end BuildSync
