import BuildSync.Proofs.Text.Checked
import BuildSync.Proofs.Text.Utf8
import Mathlib.Data.List.DropRight

/-!
Characters and the bytes that spell them. A byte of the ASCII range is always a character of its own,
so that lines, columns and single ASCII characters can be told from the bytes.
-/

namespace BuildSync.Utf8

def bytes (cs : List Char) : List UInt8 := cs.flatMap String.utf8EncodeChar

@[simp]
theorem bytes_nil : bytes [] = [] := rfl

@[simp]
theorem bytes_append (cs ds : List Char) : bytes (cs ++ ds) = bytes cs ++ bytes ds := List.flatMap_append

theorem bytes_cons (c : Char) (cs : List Char) : bytes (c :: cs) = String.utf8EncodeChar c ++ bytes cs :=
  List.flatMap_cons

theorem encode_eq_bytes (text : String) : encode text = bytes text.toList := rfl

@[simp]
theorem length_bytes (cs : List Char) : (bytes cs).length = utf8Length cs := by
  induction cs with
  | nil => rfl
  | cons c cs ih => rw [bytes_cons, List.length_append, ih, String.length_utf8EncodeChar, utf8Length_cons]

theorem take_bytes (front rest : List Char) : (bytes (front ++ rest)).take (utf8Length front) = bytes front := by
  rw [bytes_append, ← length_bytes, List.take_left]

theorem extract_bytes (front text rest : List Char) :
    (bytes (front ++ text ++ rest)).extract (utf8Length front) (utf8Length front + utf8Length text) =
      bytes text := by
  have htake : utf8Length front + utf8Length text - utf8Length front = (bytes text).length := by
    rw [length_bytes]
    omega
  rw [List.extract, htake, List.append_assoc, bytes_append, ← length_bytes front, List.drop_left, bytes_append,
    List.take_left]

theorem toNat_of_mem_encodeChar {c : Char} {b : UInt8} (h : b ∈ String.utf8EncodeChar c) (hlow : b.toNat < 0x80) :
    String.utf8EncodeChar c = [b] ∧ c.toNat = b.toNat := by
  have hval : c.toNat = c.val.toNat := rfl
  rw [hval]
  unfold String.utf8EncodeChar at h ⊢
  dsimp only at h ⊢
  generalize c.val.toNat = v at h ⊢
  split_ifs at h ⊢ with h₁ h₂ h₃
  · rw [List.mem_singleton] at h
    subst h
    exact ⟨rfl, (toNat_ofNat (by omega)).symm⟩
  all_goals
    simp only [List.mem_cons, List.not_mem_nil, or_false] at h
    rcases h with rfl | rfl | rfl | rfl <;> rw [toNat_ofNat (by omega)] at hlow <;> omega

theorem encodeChar_of_ascii {c : Char} (h : c.toNat < 0x80) :
    String.utf8EncodeChar c = [UInt8.ofNat c.toNat] := by
  have hval : c.val.toNat ≤ 0x7f := Nat.le_of_lt_succ h
  unfold String.utf8EncodeChar
  dsimp only
  rw [if_pos hval]
  rfl

theorem mem_encodeChar_iff {a c : Char} (ha : a.toNat < 0x80) :
    UInt8.ofNat a.toNat ∈ String.utf8EncodeChar c ↔ c = a := by
  have hbyte : (UInt8.ofNat a.toNat).toNat = a.toNat := toNat_ofNat (by omega)
  constructor
  · intro h
    obtain ⟨-, hc⟩ := toNat_of_mem_encodeChar h (by omega)
    rw [← Char.toNat_inj, hc, hbyte]
  · rintro rfl
    rw [encodeChar_of_ascii ha]
    exact List.mem_singleton_self _

theorem getElem?_bytes_iff {a : Char} (ha : a.toNat < 0x80) {cs : List Char} {n : Nat} :
    (bytes cs)[n]? = some (UInt8.ofNat a.toNat) ↔ ∃ front rest, cs = front ++ a :: rest ∧ utf8Length front = n := by
  constructor
  · intro h
    induction cs generalizing n with
    | nil => cases h
    | cons c cs ih =>
      rw [bytes_cons] at h
      by_cases hn : n < (String.utf8EncodeChar c).length
      · rw [List.getElem?_append_left hn] at h
        obtain rfl := (mem_encodeChar_iff ha).mp (List.mem_of_getElem? h)
        rw [encodeChar_of_ascii ha, List.length_singleton] at hn
        exact ⟨[], cs, rfl, by rw [utf8Length_nil]; omega⟩
      · rw [Nat.not_lt] at hn
        rw [List.getElem?_append_right hn] at h
        obtain ⟨front, rest, rfl, hlength⟩ := ih h
        refine ⟨c :: front, rest, rfl, ?_⟩
        rw [String.length_utf8EncodeChar] at hn hlength
        rw [utf8Length_cons, hlength]
        omega
  · rintro ⟨front, rest, rfl, rfl⟩
    rw [bytes_append, List.getElem?_append_right (length_bytes front).le, length_bytes, Nat.sub_self, bytes_cons,
      encodeChar_of_ascii ha]
    rfl

theorem count_bytes (cs : List Char) : (bytes cs).count 10 = cs.count '\n' := by
  induction cs with
  | nil => rfl
  | cons c cs ih =>
    rw [bytes_cons, List.count_append, ih, List.count_cons]
    by_cases hc : c = '\n'
    · subst hc
      rw [encodeChar_of_ascii (by decide), Nat.add_comm]
      rfl
    · have hbyte : 10 ∉ String.utf8EncodeChar c := fun h => hc ((mem_encodeChar_iff (by decide)).mp h)
      rw [List.count_eq_zero.mpr hbyte, Nat.zero_add]
      simp [hc]

theorem count_take_bytes (front : List Char) (c : Char) (rest : List Char) :
    ((bytes (front ++ c :: rest)).take (utf8Length front + c.utf8Size - 1)).count 10 = front.count '\n' := by
  have hsize := c.utf8Size_pos
  have hlast : utf8Length front + c.utf8Size - 1 - (bytes front).length = (String.utf8EncodeChar c).length - 1 := by
    rw [length_bytes, String.length_utf8EncodeChar]
    omega
  have hle : (bytes front).length ≤ utf8Length front + c.utf8Size - 1 := by
    rw [length_bytes]
    omega
  have hnot : 10 ∉ (String.utf8EncodeChar c).take ((String.utf8EncodeChar c).length - 1) := by
    intro h
    obtain ⟨hsingle, -⟩ := toNat_of_mem_encodeChar (List.mem_of_mem_take h) (by decide)
    rw [hsingle] at h
    cases h
  rw [bytes_append, List.take_append, List.take_of_length_le hle, hlast, bytes_cons,
    List.take_append_of_le_length (Nat.sub_le _ _), List.count_append, count_bytes, List.count_eq_zero.mpr hnot,
    Nat.add_zero]

theorem length_rtakeWhile_bytes (cs : List Char) :
    ((bytes cs).rtakeWhile (· ≠ 10)).length = utf8Length (cs.rtakeWhile (· ≠ '\n')) := by
  induction cs using List.reverseRecOn with
  | nil => rfl
  | append_singleton cs c ih =>
    rw [bytes_append, bytes_cons, bytes_nil, List.append_nil]
    by_cases hc : c = '\n'
    · subst hc
      rw [encodeChar_of_ascii (by decide), List.rtakeWhile_concat_neg _ _ _ (by decide),
        List.rtakeWhile_concat_neg _ _ _ (by decide)]
      rfl
    · have hbytes : ∀ b ∈ (String.utf8EncodeChar c).reverse, decide (b ≠ 10) = true := by
        intro b hb
        rw [decide_eq_true_eq]
        rintro rfl
        exact hc ((mem_encodeChar_iff (by decide)).mp (List.mem_reverse.mp hb))
      rw [List.rtakeWhile_concat_pos _ _ _ (by simpa using hc), utf8Length_append, ← ih, List.rtakeWhile,
        List.reverse_append, List.takeWhile_append_of_pos hbytes, List.reverse_append, List.reverse_reverse,
        List.length_append, String.length_utf8EncodeChar]
      rfl

end BuildSync.Utf8
