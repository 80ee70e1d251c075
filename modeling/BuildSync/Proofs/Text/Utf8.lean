import BuildSync.Text.Utf8
import Mathlib.Tactic.SplitIfs

namespace BuildSync.Utf8

theorem toNat_ofNat {n : Nat} (h : n < 256) : (UInt8.ofNat n).toNat = n := by
  simpa using h

theorem following_one {n : Nat} (h : n < 0x80) : following n = some ⟨0, 0x80, 0xBF⟩ := if_pos h

theorem following_two {n : Nat} (h : 0xC2 ≤ n) (h' : n < 0xE0) : following n = some ⟨1, 0x80, 0xBF⟩ := by
  rw [following, if_neg (by omega), if_neg (by omega), if_pos h']

theorem following_three {v : Nat} (h : 0x800 ≤ v) (h' : v < 0x10000) (hs : v < 0xD800 ∨ 0xDFFF < v) :
    ∃ low high, following (v / 4096 + 0xE0) = some ⟨2, low, high⟩ ∧ low ≤ v / 64 % 64 + 0x80 ∧
      v / 64 % 64 + 0x80 ≤ high := by
  rw [following, if_neg (by omega), if_neg (by omega), if_neg (by omega)]
  split_ifs
  · exact ⟨_, _, rfl, by omega, by omega⟩
  · exact ⟨_, _, rfl, by omega, by omega⟩
  · exact ⟨_, _, rfl, by omega, by omega⟩
  all_goals omega

theorem following_four {v : Nat} (h : 0x10000 ≤ v) (h' : v < 0x110000) :
    ∃ low high, following (v / 262144 + 0xF0) = some ⟨3, low, high⟩ ∧ low ≤ v / 4096 % 64 + 0x80 ∧
      v / 4096 % 64 + 0x80 ≤ high := by
  rw [following, if_neg (by omega), if_neg (by omega), if_neg (by omega), if_neg (by omega),
    if_neg (by omega), if_neg (by omega)]
  split_ifs
  · exact ⟨_, _, rfl, by omega, by omega⟩
  · exact ⟨_, _, rfl, by omega, by omega⟩
  · exact ⟨_, _, rfl, by omega, by omega⟩
  all_goals omega

theorem leadingBits_one (n : Nat) : leadingBits n 1 = n - 0xC0 := rfl

theorem leadingBits_two (n : Nat) : leadingBits n 2 = n - 0xE0 := rfl

theorem leadingBits_three (n : Nat) : leadingBits n 3 = n - 0xF0 := rfl

theorem continuation_zero (low high seen value : Nat) (bytes : List UInt8) :
    continuation low high seen value 0 bytes = .ok value := by
  cases bytes <;> rfl

theorem continuation_step {low high : Nat} {b : UInt8} (h : low ≤ b.toNat) (h' : b.toNat ≤ high)
    (seen value count : Nat) (rest : List UInt8) :
    continuation low high seen value (count + 1) (b :: rest) =
      continuation 0x80 0xBF (seen + 1) (value * 64 + (b.toNat - 0x80)) count rest :=
  if_pos ⟨h, h'⟩

theorem continuation_cons {low high n : Nat} (hn : n < 256) (h : low ≤ n) (h' : n ≤ high)
    (seen value count : Nat) (rest : List UInt8) :
    continuation low high seen value (count + 1) (UInt8.ofNat n :: rest) =
      continuation 0x80 0xBF (seen + 1) (value * 64 + (n - 0x80)) count rest := by
  have hb := toNat_ofNat hn
  have hlow : low ≤ (UInt8.ofNat n).toNat := hb.symm ▸ h
  have hhigh : (UInt8.ofNat n).toNat ≤ high := hb.symm ▸ h'
  rw [continuation_step hlow hhigh, hb]

theorem character_encode (c : Char) (rest : List UInt8) : ∃ first more,
    String.utf8EncodeChar c = first :: more ∧ character first (more ++ rest) = .ok (c, more.length) := by
  have hc : Char.ofNat c.val.toNat = c := c.ofNat_toNat
  have hvalid : c.val.toNat < 0xD800 ∨ 0xDFFF < c.val.toNat ∧ c.val.toNat < 0x110000 := c.valid
  unfold String.utf8EncodeChar
  dsimp only
  generalize c.val.toNat = v at hc hvalid ⊢
  by_cases h₁ : v ≤ 0x7f
  · rw [if_pos h₁]
    refine ⟨_, _, rfl, ?_⟩
    rw [character, toNat_ofNat (by omega), following_one (by omega)]
    rw [← hc]
    rfl
  rw [if_neg h₁]
  by_cases h₂ : v ≤ 0x7ff
  · rw [if_pos h₂]
    refine ⟨_, _, rfl, ?_⟩
    have hvalue : (v / 64 % 0x20 + 0xc0 - 0xc0) * 64 + (v % 0x40 + 0x80 - 0x80) = v := by omega
    rw [character, toNat_ofNat (by omega), following_two (by omega) (by omega)]
    dsimp only
    rw [List.cons_append, continuation_cons (by omega) (by omega) (by omega)]
    rw [leadingBits_one, continuation_zero, hvalue, ← hc]
    rfl
  rw [if_neg h₂]
  by_cases h₃ : v ≤ 0xffff
  · rw [if_pos h₃]
    refine ⟨_, _, rfl, ?_⟩
    obtain ⟨low, high, hfollowing, hlow, hhigh⟩ := following_three (v := v) (by omega) (by omega) (by omega)
    have hlead : v / 4096 % 0x10 + 0xe0 = v / 4096 + 0xe0 := by omega
    have hvalue : ((v / 4096 + 0xe0 - 0xe0) * 64 + (v / 64 % 0x40 + 0x80 - 0x80)) * 64 +
        (v % 0x40 + 0x80 - 0x80) = v := by omega
    rw [hlead, character, toNat_ofNat (by omega), hfollowing]
    dsimp only
    rw [List.cons_append, continuation_cons (by omega) (by omega) (by omega), List.cons_append,
      continuation_cons (by omega) (by omega) (by omega)]
    rw [leadingBits_two, continuation_zero, hvalue, ← hc]
    rfl
  · rw [if_neg h₃]
    refine ⟨_, _, rfl, ?_⟩
    obtain ⟨low, high, hfollowing, hlow, hhigh⟩ := following_four (v := v) (by omega) (by omega)
    have hlead : v / 262144 % 0x08 + 0xf0 = v / 262144 + 0xf0 := by omega
    have hvalue : (((v / 262144 + 0xf0 - 0xf0) * 64 + (v / 4096 % 0x40 + 0x80 - 0x80)) * 64 +
        (v / 64 % 0x40 + 0x80 - 0x80)) * 64 + (v % 0x40 + 0x80 - 0x80) = v := by omega
    rw [hlead, character, toNat_ofNat (by omega), hfollowing]
    dsimp only
    rw [List.cons_append, continuation_cons (by omega) (by omega) (by omega), List.cons_append,
      continuation_cons (by omega) (by omega) (by omega), List.cons_append,
      continuation_cons (by omega) (by omega) (by omega)]
    rw [leadingBits_three, continuation_zero, hvalue, ← hc]
    rfl

theorem decodeFrom_encode (cs : List Char) (index : Nat) :
    decodeFrom index (cs.flatMap String.utf8EncodeChar) = .ok cs := by
  induction cs generalizing index with
  | nil => rw [List.flatMap_nil, decodeFrom]
  | cons c cs ih =>
    obtain ⟨first, more, hbytes, hread⟩ := character_encode c (cs.flatMap String.utf8EncodeChar)
    rw [List.flatMap_cons, hbytes, List.cons_append, decodeFrom, hread]
    dsimp only
    rw [List.drop_left, ih]

theorem decode_encode (text : String) : decode (encode text) = .ok text := by
  rw [decode, encode, decodeFrom_encode]
  exact congrArg Except.ok String.ofList_toList

theorem val_ofNat {v : Nat} (h : v < 0xD800 ∨ 0xDFFF < v ∧ v < 0x110000) : (Char.ofNat v).val.toNat = v := by
  have hvalid : v.isValidChar := h
  rw [Char.ofNat, dif_pos hvalid]
  rfl

theorem ofNat_eq {n : Nat} {b : UInt8} (h : n = b.toNat) : UInt8.ofNat n = b := by
  rw [h, UInt8.ofNat_toNat]

theorem following_eq_some {n : Nat} {f : Following} (h : following n = some f) :
    (n < 0x80 ∧ f.count = 0) ∨
    (0xC2 ≤ n ∧ n < 0xE0 ∧ f.count = 1 ∧ 0x80 ≤ f.low ∧ f.high ≤ 0xBF) ∨
    (0xE0 ≤ n ∧ n < 0xF0 ∧ f.count = 2 ∧ 0x80 ≤ f.low ∧ f.high ≤ 0xBF ∧ (n = 0xE0 → 0xA0 ≤ f.low) ∧
      (n = 0xED → f.high ≤ 0x9F)) ∨
    (0xF0 ≤ n ∧ n ≤ 0xF4 ∧ f.count = 3 ∧ 0x80 ≤ f.low ∧ f.high ≤ 0xBF ∧ (n = 0xF0 → 0x90 ≤ f.low) ∧
      (n = 0xF4 → f.high ≤ 0x8F)) := by
  rw [following] at h
  split_ifs at h <;> cases h <;> simp <;> omega

theorem continuation_eq_ok {low high seen value count result : Nat} {bytes : List UInt8}
    (h : continuation low high seen value (count + 1) bytes = .ok result) : ∃ b rest, bytes = b :: rest ∧
      low ≤ b.toNat ∧ b.toNat ≤ high ∧
      continuation 0x80 0xBF (seen + 1) (value * 64 + (b.toNat - 0x80)) count rest = .ok result := by
  cases bytes with
  | nil => cases h
  | cons b rest =>
    rw [continuation] at h
    split_ifs at h with hb
    exact ⟨b, rest, rfl, hb.1, hb.2, h⟩

theorem encodeChar_of_character {first : UInt8} {rest : List UInt8} {c : Char} {count : Nat}
    (h : character first rest = .ok (c, count)) : String.utf8EncodeChar c = first :: rest.take count := by
  rw [character] at h
  split at h
  · cases h
  rename_i f hf
  split at h
  · cases h
  rename_i value hvalue
  cases h
  unfold String.utf8EncodeChar
  dsimp only
  rcases following_eq_some hf with ⟨hn, hc⟩ | ⟨hlow, hhigh, hc, hrange⟩ | ⟨hlow, hhigh, hc, hrange⟩ |
    ⟨hlow, hhigh, hc, hrange⟩
  · rw [hc, continuation_zero] at hvalue
    have hv : value = first.toNat := (Except.ok.inj hvalue).symm
    rw [hc, hv, val_ofNat (by omega), if_pos (by omega), UInt8.ofNat_toNat, List.take_zero]
  · rw [hc] at hvalue
    obtain ⟨b, rest, rfl, hb, hb', hvalue⟩ := continuation_eq_ok hvalue
    rw [continuation_zero, leadingBits_one] at hvalue
    obtain rfl := Except.ok.inj hvalue
    rw [hc, val_ofNat (by omega), if_neg (by omega), if_pos (by omega), ofNat_eq (b := first) (by omega),
      ofNat_eq (b := b) (by omega)]
    rfl
  · rw [hc] at hvalue
    obtain ⟨b, rest, rfl, hb, hb', hvalue⟩ := continuation_eq_ok hvalue
    obtain ⟨b', rest, rfl, hb₁, hb₁', hvalue⟩ := continuation_eq_ok hvalue
    rw [continuation_zero, leadingBits_two] at hvalue
    obtain rfl := Except.ok.inj hvalue
    rw [hc, val_ofNat (by omega), if_neg (by omega), if_neg (by omega), if_pos (by omega),
      ofNat_eq (b := first) (by omega), ofNat_eq (b := b) (by omega), ofNat_eq (b := b') (by omega)]
    rfl
  · rw [hc] at hvalue
    obtain ⟨b, rest, rfl, hb, hb', hvalue⟩ := continuation_eq_ok hvalue
    obtain ⟨b', rest, rfl, hb₁, hb₁', hvalue⟩ := continuation_eq_ok hvalue
    obtain ⟨b'', rest, rfl, hb₂, hb₂', hvalue⟩ := continuation_eq_ok hvalue
    rw [continuation_zero, leadingBits_three] at hvalue
    obtain rfl := Except.ok.inj hvalue
    rw [hc, val_ofNat (by omega), if_neg (by omega), if_neg (by omega), if_neg (by omega),
      ofNat_eq (b := first) (by omega), ofNat_eq (b := b) (by omega), ofNat_eq (b := b') (by omega),
      ofNat_eq (b := b'') (by omega)]
    rfl

theorem flatMap_of_decodeFrom {index : Nat} {bytes : List UInt8} {cs : List Char}
    (h : decodeFrom index bytes = .ok cs) : cs.flatMap String.utf8EncodeChar = bytes := by
  fun_induction decodeFrom index bytes generalizing cs with
  | case1 index =>
    cases h
    rfl
  | case2 => cases h
  | case3 => cases h
  | case4 index first rest c count hread more hmore ih =>
    cases h
    rw [List.flatMap_cons, encodeChar_of_character hread, ih hmore, List.cons_append, List.take_append_drop]

theorem encode_of_decode {bytes : List UInt8} {text : String} (h : decode bytes = .ok text) :
    encode text = bytes := by
  rw [decode] at h
  cases hread : decodeFrom 0 bytes with
  | error fault =>
    rw [hread] at h
    cases h
  | ok cs =>
    rw [hread] at h
    cases h
    rw [encode, String.toList_ofList, flatMap_of_decodeFrom hread]

theorem length_of_continuation {low high seen value count v : Nat} {rest : List UInt8}
    (h : continuation low high seen value count rest = .ok v) : count ≤ rest.length := by
  fun_induction continuation low high seen value count rest with
  | case1 => exact Nat.zero_le _
  | case2 => cases h
  | case3 low high seen value count b rest hb ih => exact Nat.succ_le_succ (ih h)
  | case4 => cases h

theorem length_of_character {first : UInt8} {rest : List UInt8} {c : Char} {count : Nat}
    (h : character first rest = .ok (c, count)) : count ≤ rest.length := by
  unfold character at h
  split at h
  · cases h
  · split at h
    · cases h
    · rename_i hcontinuation
      cases h
      exact length_of_continuation hcontinuation

theorem index_le {index : Nat} {bytes : List UInt8} {fault : Fault} (h : decodeFrom index bytes = .error fault) :
    fault.index ≤ index + bytes.length := by
  fun_induction decodeFrom index bytes with
  | case1 => cases h
  | case2 index first rest =>
    cases h
    exact Nat.le_add_right _ _
  | case3 index first rest c count hc e hrest ih =>
    have hcount := length_of_character hc
    have hindex := ih (Except.error.inj h ▸ hrest)
    rw [List.length_drop] at hindex
    rw [List.length_cons]
    omega
  | case4 => cases h

end BuildSync.Utf8
