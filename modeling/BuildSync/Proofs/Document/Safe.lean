import BuildSync.Document
import BuildSync.Proofs.Statement.Indices
import BuildSync.Proofs.Text.Utf8

namespace BuildSync

namespace Document

/-- Reads a document with every index, difference and slice checked. -/
def parseChecked (path : String) (flavor : Flavor) (data : List UInt8) : Checked ParseError Document :=
  match Utf8.decode data with
  | .error fault => do
    let valid ← .range data 0 fault.index
    .error ⟨path, valid.count 10 + 1, 1, .notText fault⟩
  | .ok source =>
    match Statement.ofSourceChecked source with
    | .done statements => .done ⟨path, flavor, statements⟩
    | .error e => .error ⟨path, e⟩
    | .fault => .fault

/-- Whatever the bytes, reading them asks for nothing that does not exist, and comes to a document
or an error. -/
theorem parse_without_fault (path : String) (flavor : Flavor) (data : List UInt8) :
    parseChecked path flavor data ≠ .fault ∧
      parseChecked path flavor data = .ofExcept (parse path flavor data) := by
  have heq : parseChecked path flavor data = .ofExcept (parse path flavor data) := by
    unfold parseChecked parse
    cases hdecode : Utf8.decode data with
    | error fault =>
      have hindex : fault.index ≤ data.length := by
        unfold Utf8.decode at hdecode
        cases hfrom : Utf8.decodeFrom 0 data with
        | ok cs =>
          rw [hfrom] at hdecode
          cases hdecode
        | error e =>
          rw [hfrom] at hdecode
          cases hdecode
          simpa using Utf8.index_le hfrom
      dsimp only
      rw [Checked.range, if_pos ⟨Nat.zero_le _, hindex⟩]
      rfl
    | ok source =>
      dsimp only
      rw [Statement.ofSourceChecked_eq, ofSource]
      cases Statement.ofSource source <;> rfl
  exact ⟨heq ▸ Checked.ofExcept_ne_fault _, heq⟩

end Document

end BuildSync
