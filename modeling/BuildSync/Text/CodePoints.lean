namespace BuildSync

abbrev CodePoints := List (Nat × Nat)

def CodePoints.has (table : CodePoints) (c : Char) : Bool :=
  table.any fun (low, high) => low ≤ c.toNat && c.toNat ≤ high

end BuildSync
