import BuildSync.Proofs.Token.Spelling
import Mathlib.Data.List.Basic
import Mathlib.Tactic.SplitIfs

/-!
Quotation. Whatever a value is, its quotation is read as one token with that value, and what is behind it has
no say in that unless it goes on with a quote.
-/

namespace BuildSync

theorem feed_notMem_hexByte : ∀ n < 128, '\n' ∉ hexByte n := by
  decide +kernel

theorem feed_notMem_quotedChar (c : Char) : '\n' ∉ quotedChar c := by
  unfold quotedChar
  split_ifs with _ _ hfeed _ _ hcontrol
  · decide
  · decide
  · decide
  · decide
  · decide
  · have hbyte := feed_notMem_hexByte c.toNat (by omega)
    simpa using hbyte
  · rw [List.mem_singleton]
    exact Ne.symm hfeed

theorem feed_notMem_quoted (value : String) : '\n' ∉ (quoted value).toList := by
  simp [quoted, feed_notMem_quotedChar]

namespace Token

open Lexeme

theorem scan_quoted (p : Progress) (value : String) {rest : List Char} (h : rest.head? ≠ some '"') :
    scan p ((quoted value).toList ++ rest) =
      (scan (p.next (.of (.string value) (quoted value))) rest).map
        (p.token (.string value) (quoted value).toList :: ·) := by
  have hscan := scan_cons (p := p) (stands_quoted value h) rfl
  rwa [chars_of] at hscan

theorem quoted_of_source {value rest : String} (h : rest.toList.head? ≠ some '"') :
    (∃ ts, ofSource (quoted value) = .ok ts) ∧
      ∀ ts, ofSource (quoted value ++ rest) = .ok ts → ∃ t after, ts = t :: after ∧ t.kind = .string value ∧
        t.text = quoted value ∧ t.start = .start ∧ t.endLine = t.start.line := by
  constructor
  · have hscan : scan .start ((quoted value).toList ++ []) = _ := scan_quoted .start value nofun
    rw [List.append_nil, scan] at hscan
    exact ⟨_, hscan⟩
  · intro ts hts
    rw [ofSource, String.toList_append, scan_quoted .start value h] at hts
    cases hrest : scan (Progress.start.next (.of (.string value) (quoted value))) rest.toList with
    | error e =>
      rw [hrest] at hts
      cases hts
    | ok after =>
      rw [hrest] at hts
      obtain rfl := Except.ok.inj hts
      refine ⟨_, after, rfl, rfl, String.ofList_toList, rfl, ?_⟩
      have hline : '\n' ∉ (quoted value).toList.dropLast := fun hmem =>
        feed_notMem_quoted value (List.dropLast_subset _ hmem)
      simp [endLine, Progress.token, List.count_eq_zero.mpr hline]

def quotedTokens : List Token := [
  ⟨"", .string "\\\"\n\x7f", "\"\\\\\\\"\\n\\x7f\"", .start⟩,
  ⟨" ", .operator, "+", ⟨13, 1, 13⟩⟩,
  ⟨" ", .string "", "\"\"", ⟨15, 1, 15⟩⟩,
  ⟨"", .endOfText, "", ⟨17, 1, 17⟩⟩]

theorem quoted_of_source_controls : ofSource (quoted "\\\"\n\x7f" ++ " + \"\"") = .ok quotedTokens ∧
    ∃ t after, quotedTokens = t :: after ∧ t.kind = .string "\\\"\n\x7f" ∧ t.text = quoted "\\\"\n\x7f" ∧
      t.start = .start ∧ t.endLine = t.start.line := by
  have h : ofSource (quoted "\\\"\n\x7f" ++ " + \"\"") = .ok quotedTokens := by decide +kernel
  exact ⟨h, (quoted_of_source (by decide)).2 _ h⟩

end Token

end BuildSync
