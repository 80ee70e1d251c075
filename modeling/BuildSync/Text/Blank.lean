namespace BuildSync

def isBlank (c : Char) : Bool :=
  let n := c.toNat
  (0x09 ≤ n && n ≤ 0x0D) || n == 0x20 || n == 0x85 || n == 0xA0 || n == 0x1680 ||
    (0x2000 ≤ n && n ≤ 0x200A) || n == 0x2028 || n == 0x2029 || n == 0x202F || n == 0x205F ||
    n == 0x3000

def trimEnd (cs : List Char) : List Char :=
  (cs.reverse.dropWhile isBlank).reverse

def blankTail (cs : List Char) : List Char :=
  (cs.reverse.takeWhile isBlank).reverse

theorem trimEnd_append_blankTail (cs : List Char) : trimEnd cs ++ blankTail cs = cs := by
  rw [trimEnd, blankTail, ← List.reverse_append, List.takeWhile_append_dropWhile, List.reverse_reverse]

end BuildSync
