import BuildSync.Proofs.Text.Utf8
import Mathlib.Data.String.Basic

namespace BuildSync.Utf8

theorem ofNat_lt_ofNat {m n : Nat} (hm : m < 256) (hn : n < 256) :
    UInt8.ofNat m < UInt8.ofNat n ↔ m < n := by
  rw [UInt8.lt_iff_toNat_lt, toNat_ofNat hm, toNat_ofNat hn]

theorem ofNat_inj {m n : Nat} (hm : m < 256) (hn : n < 256) : UInt8.ofNat m = UInt8.ofNat n ↔ m = n := by
  rw [← UInt8.toNat_inj, toNat_ofNat hm, toNat_ofNat hn]

theorem cons_lt_cons {m n : Nat} (hm : m < 256) (hn : n < 256) (xs ys : List UInt8) :
    UInt8.ofNat m :: xs < UInt8.ofNat n :: ys ↔ m < n ∨ m = n ∧ xs < ys := by
  rw [List.cons_lt_cons_iff, ofNat_lt_ofNat hm hn, ofNat_inj hm hn]

theorem encodeChar_append_lt {c d : Char} (h : c < d) (xs ys : List UInt8) :
    String.utf8EncodeChar c ++ xs < String.utf8EncodeChar d ++ ys := by
  have hd : d.val.toNat < 0x110000 := by
    have hvalid : d.val.toNat < 0xD800 ∨ 0xDFFF < d.val.toNat ∧ d.val.toNat < 0x110000 := d.valid
    omega
  have hlt : c.val.toNat < d.val.toNat := h
  unfold String.utf8EncodeChar
  dsimp only
  generalize c.val.toNat = v at hlt ⊢
  generalize d.val.toNat = w at hlt hd ⊢
  have hdigits (n : Nat) (hn : n < 0x110000) : n / 262144 % 0x08 = n / 262144 ∧
      n / 4096 = n / 262144 * 64 + n / 4096 % 64 ∧ n / 64 = n / 4096 * 64 + n / 64 % 64 := by omega
  have hv := hdigits v (by omega)
  have hw := hdigits w hd
  split_ifs <;> simp only [List.cons_append, List.nil_append]
  all_goals simp (disch := omega) only [cons_lt_cons]
  all_goals omega

theorem flatMap_encodeChar_lt {cs ds : List Char} (h : cs < ds) :
    cs.flatMap String.utf8EncodeChar < ds.flatMap String.utf8EncodeChar := by
  induction cs generalizing ds with
  | nil =>
    cases ds with
    | nil => exact absurd h (List.lt_irrefl _)
    | cons d ds =>
      obtain ⟨first, more, hbytes, -⟩ := character_encode d []
      rw [List.flatMap_nil, List.flatMap_cons, hbytes]
      exact List.nil_lt_cons _ _
  | cons c cs ih =>
    cases ds with
    | nil => exact absurd h (List.not_lt_nil _)
    | cons d ds =>
      rw [List.flatMap_cons, List.flatMap_cons]
      rcases List.cons_lt_cons_iff.mp h with hlt | ⟨rfl, hlt⟩
      · exact encodeChar_append_lt hlt _ _
      · exact List.append_left_lt (ih hlt)

theorem encode_lt_encode {a b : String} : encode a < encode b ↔ a < b := by
  have hmono {a b : String} (h : a < b) : encode a < encode b :=
    flatMap_encodeChar_lt (String.lt_iff_toList_lt.mp h)
  constructor
  · intro h
    rcases lt_trichotomy a b with hlt | rfl | hgt
    · exact hlt
    · exact absurd h (List.lt_irrefl _)
    · exact absurd (hmono hgt) (List.lt_asymm h)
  · exact hmono

end BuildSync.Utf8
