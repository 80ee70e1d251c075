import BuildSync.Proofs.Text.Bytes

/-! Texts in which each line ends in a carriage return and a line feed. -/

namespace BuildSync

def returned (cs : List Char) : List Char := cs.flatMap fun c => if c = '\n' then ['\r', c] else [c]

@[simp] theorem returned_nil : returned [] = [] := rfl

@[simp] theorem returned_feed (cs : List Char) : returned ('\n' :: cs) = '\r' :: '\n' :: returned cs := rfl

theorem returned_cons {c : Char} (h : c ≠ '\n') (cs : List Char) : returned (c :: cs) = c :: returned cs := by
  rw [returned, List.flatMap_cons, if_neg h]
  rfl

@[simp] theorem returned_append (cs ds : List Char) : returned (cs ++ ds) = returned cs ++ returned ds :=
  List.flatMap_append

theorem returned_eq_self {cs : List Char} (h : '\n' ∉ cs) : returned cs = cs := by
  induction cs with
  | nil => rfl
  | cons c cs ih =>
    obtain ⟨hc, hcs⟩ := not_or.mp (mt List.mem_cons.mpr h)
    rw [returned_cons (Ne.symm hc), ih hcs]

section

variable {p : Char → Bool} (hfeed : p '\n' = false) (hreturn : p '\r' = false)

include hfeed hreturn

theorem takeWhile_returned (cs : List Char) : (returned cs).takeWhile p = cs.takeWhile p := by
  induction cs with
  | nil => rfl
  | cons c cs ih =>
    by_cases hc : c = '\n'
    · subst hc
      simp [hfeed, hreturn]
    · rw [returned_cons hc, List.takeWhile_cons, List.takeWhile_cons, ih]

theorem dropWhile_returned (cs : List Char) : (returned cs).dropWhile p = returned (cs.dropWhile p) := by
  induction cs with
  | nil => rfl
  | cons c cs ih =>
    by_cases hc : c = '\n'
    · subst hc
      simp [hfeed, hreturn]
    · rw [returned_cons hc, List.dropWhile_cons, List.dropWhile_cons, ih]
      split_ifs
      · rfl
      · rw [returned_cons hc]

theorem any_head?_returned (cs : List Char) : (returned cs).head?.any p = cs.head?.any p := by
  cases cs with
  | nil => rfl
  | cons c cs =>
    by_cases hc : c = '\n'
    · subst hc
      simp [hfeed, hreturn]
    · rw [returned_cons hc]
      rfl

end

theorem prefix_returned_iff {op : List Char} (hfeed : '\n' ∉ op) (hreturn : '\r' ∉ op) (cs : List Char) :
    op <+: returned cs ↔ op <+: cs := by
  induction op generalizing cs with
  | nil => simp
  | cons o op ih =>
    obtain ⟨ho, hfeed⟩ := not_or.mp (mt List.mem_cons.mpr hfeed)
    obtain ⟨ho', hreturn⟩ := not_or.mp (mt List.mem_cons.mpr hreturn)
    cases cs with
    | nil => simp
    | cons c cs =>
      by_cases hc : c = '\n'
      · subst hc
        simp [Ne.symm ho, Ne.symm ho']
      · rw [returned_cons hc, List.cons_prefix_cons, List.cons_prefix_cons, ih hfeed hreturn]

theorem count_dropLast_returned (cs : List Char) : (returned cs).dropLast.count '\n' = cs.dropLast.count '\n' := by
  have hcount (cs : List Char) : (returned cs).count '\n' = cs.count '\n' := by
    induction cs with
    | nil => rfl
    | cons c cs ih =>
      by_cases hc : c = '\n'
      · subst hc
        simp [ih]
      · rw [returned_cons hc, List.count_cons, List.count_cons, ih]
  rcases List.eq_nil_or_concat' cs with rfl | ⟨init, c, rfl⟩
  · rfl
  · by_cases hc : c = '\n'
    · subst hc
      have hsplit : returned (init ++ ['\n']) = (returned init ++ ['\r']) ++ ['\n'] := by simp
      rw [hsplit, List.dropLast_concat, List.dropLast_concat, List.count_append, hcount]
      simp
    · rw [returned_append, returned_cons hc, returned_nil, List.dropLast_concat, List.dropLast_concat, hcount]

namespace Utf8

def returned (bs : List UInt8) : List UInt8 := bs.flatMap fun b => if b = 10 then [13, b] else [b]

theorem bytes_returned (cs : List Char) : bytes (BuildSync.returned cs) = returned (bytes cs) := by
  induction cs with
  | nil => rfl
  | cons c cs ih =>
    rw [bytes_cons, returned, List.flatMap_append]
    by_cases hc : c = '\n'
    · subst hc
      rw [returned_feed, bytes_cons, bytes_cons, ih, encodeChar_of_ascii (by decide), encodeChar_of_ascii (by decide)]
      rfl
    · have hbyte : 10 ∉ String.utf8EncodeChar c := fun h => hc ((mem_encodeChar_iff (by decide)).mp h)
      have hself : (String.utf8EncodeChar c).flatMap (fun b => if b = 10 then [13, b] else [b]) =
          String.utf8EncodeChar c := by
        have hkeep : ∀ b ∈ String.utf8EncodeChar c, (if b = 10 then [13, b] else [b]) = [b] :=
          fun b hb => if_neg fun h : b = 10 => hbyte (h ▸ hb)
        rw [List.flatMap_congr hkeep, List.flatMap_singleton']
      rw [returned_cons hc, bytes_cons, ih, hself]
      rfl

theorem filter_bytes (cs : List Char) : (bytes cs).filter (· ≠ 13) = bytes (cs.filter (· ≠ '\r')) := by
  induction cs with
  | nil => rfl
  | cons c cs ih =>
    rw [bytes_cons, List.filter_append, ih]
    by_cases hc : c = '\r'
    · subst hc
      rw [encodeChar_of_ascii (by decide)]
      rfl
    · have hbyte : 13 ∉ String.utf8EncodeChar c := fun h => hc ((mem_encodeChar_iff (by decide)).mp h)
      rw [List.filter_cons_of_pos (by simpa using hc), bytes_cons, List.filter_eq_self.mpr]
      intro b hb
      simpa using fun h : b = 13 => hbyte (h ▸ hb)

theorem filter_returned {bs : List UInt8} (h : 13 ∉ bs) : (returned bs).filter (· ≠ 13) = bs := by
  induction bs with
  | nil => rfl
  | cons b bs ih =>
    obtain ⟨hb, hbs⟩ := not_or.mp (mt List.mem_cons.mpr h)
    have hsplit : returned (b :: bs) = (if b = 10 then [13, b] else [b]) ++ returned bs := List.flatMap_cons
    have hkeep : [b].filter (· ≠ 13) = [b] := List.filter_cons_of_pos (by simpa using Ne.symm hb)
    rw [hsplit, List.filter_append, ih hbs]
    split_ifs
    · rw [List.filter_cons_of_neg (by simp), hkeep]
      rfl
    · rw [hkeep]
      rfl

theorem notMem_of_bytes {cs : List Char} (h : 13 ∉ bytes cs) : '\r' ∉ cs := by
  intro hmem
  refine h (List.mem_flatMap.mpr ⟨'\r', hmem, ?_⟩)
  exact (mem_encodeChar_iff (by decide)).mpr rfl

theorem decode_returned_iff {bs : List UInt8} (h : 13 ∉ bs) {text' : String} :
    decode (returned bs) = .ok text' ↔ ∃ text, decode bs = .ok text ∧ '\r' ∉ text.toList ∧
      text' = String.ofList (BuildSync.returned text.toList) := by
  constructor
  · intro hdecode
    have hencode := encode_of_decode hdecode
    rw [encode_eq_bytes] at hencode
    have hfilter : bytes (text'.toList.filter (· ≠ '\r')) = bs := by
      rw [← filter_bytes, hencode, filter_returned h]
    generalize text'.toList.filter (· ≠ '\r') = cs at hfilter
    have htext : decode bs = .ok (String.ofList cs) := by
      rw [← hfilter, ← String.toList_ofList (l := cs), ← encode_eq_bytes, decode_encode, String.toList_ofList]
    refine ⟨String.ofList cs, htext, ?_, ?_⟩
    · rw [String.toList_ofList]
      exact notMem_of_bytes (hfilter ▸ h)
    · rw [String.toList_ofList]
      have : decode (returned bs) = .ok (String.ofList (BuildSync.returned cs)) := by
        rw [← hfilter, ← bytes_returned, ← String.toList_ofList (l := BuildSync.returned cs), ← encode_eq_bytes,
          decode_encode, String.toList_ofList]
      rw [hdecode] at this
      exact Except.ok.inj this
  · rintro ⟨text, hdecode, -, rfl⟩
    have hencode := encode_of_decode hdecode
    rw [encode_eq_bytes] at hencode
    rw [← hencode, ← bytes_returned, ← String.toList_ofList (l := BuildSync.returned text.toList), ← encode_eq_bytes,
      decode_encode, String.toList_ofList]

end Utf8

end BuildSync
