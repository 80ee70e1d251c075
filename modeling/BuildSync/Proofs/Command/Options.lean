import BuildSync.Command.Arguments
import Mathlib.Data.List.TakeWhile
import Mathlib.Tactic.SplitIfs

namespace BuildSync.Arguments

namespace Given

def addAll (given : Given) (options : List (OptionRule × String)) : Option Given :=
  options.foldlM (fun given option => given.add option.1 option.2) given

variable {given given' : Given} {rule : OptionRule} {value k : String}

theorem addAll_cons (given : Given) (option : OptionRule × String) (options : List (OptionRule × String)) :
    given.addAll (option :: options) = (given.add option.1 option.2).bind (·.addAll options) := rfl

theorem addAll_singleton (given : Given) (rule : OptionRule) (value : String) :
    given.addAll [(rule, value)] = given.add rule value := by
  rw [addAll_cons]
  cases given.add rule value <;> rfl

theorem addAll_append (given : Given) (options options' : List (OptionRule × String)) :
    given.addAll (options ++ options') = (given.addAll options).bind (·.addAll options') :=
  List.foldlM_append

theorem add_eq_some (h : given.add rule value = some given') : given' = given ++ [(rule.long, value)] := by
  rw [add] at h
  split_ifs at h
  exact (Option.some.inj h).symm

theorem value?_append (given : Given) (long value k : String) :
    value? (given ++ [(long, value)]) k = (given.value? k).or (if k = long then some value else none) := by
  rw [value?, List.lookup_append, List.lookup_cons, List.lookup_nil]
  by_cases hk : k = long
  · rw [if_pos hk, hk, beq_self_eq_true]
    rfl
  · rw [if_neg hk, beq_eq_false_iff_ne.mpr hk]
    rfl

theorem has_add (h : given.add rule value = some given') : given'.has k ↔ given.has k ∨ rule.long = k := by
  rw [add_eq_some h, has, has, value?_append, Option.isSome_or]
  by_cases hk : k = rule.long
  · simp [hk]
  · simp [hk, Ne.symm hk]

theorem has_addAll {options : List (OptionRule × String)} (h : given.addAll options = some given') :
    given'.has k ↔ given.has k ∨ k ∈ options.map (·.1.long) := by
  induction options generalizing given with
  | nil =>
    cases h
    simp
  | cons option options ih =>
    rw [addAll_cons] at h
    obtain ⟨added, hadd, hrest⟩ := Option.bind_eq_some_iff.mp h
    rw [ih hrest, has_add hadd, List.map_cons, List.mem_cons, or_assoc, @eq_comm _ k]

structure Marked (k : String) (given given' : Given) : Prop where
  has : given.has k = false
  marked : given'.has k = true
  value? : ∀ long ≠ k, given'.value? long = given.value? long
  values : ∀ long ≠ k, given'.values long = given.values long

theorem marked_append (h : given.has k = false) : Marked k given (given ++ [(k, "")]) where
  has := h
  marked := by
    rw [Given.has, value?_append, if_pos rfl, Option.isSome_or]
    exact Bool.or_true _
  value? := fun long hlong => by rw [value?_append, if_neg hlong, Option.or_none]
  values := fun long hlong => by simp [Given.values, Ne.symm hlong]

namespace Marked

theorem add (h : Marked k given given') (hlong : rule.long ≠ k) (value : String) :
    (given.add rule value = none ∧ given'.add rule value = none) ∨
      ∃ added added', given.add rule value = some added ∧ given'.add rule value = some added' ∧
        Marked k added added' := by
  have hhas : given'.has rule.long = given.has rule.long := by
    rw [Given.has, Given.has, h.value? _ hlong]
  simp only [Given.add, hhas]
  split_ifs
  · exact .inl ⟨rfl, rfl⟩
  · exact .inl ⟨rfl, rfl⟩
  · refine .inr ⟨_, _, rfl, rfl, ⟨?_, ?_, fun long hne => ?_, fun long hne => ?_⟩⟩
    · rw [Given.has, value?_append, if_neg (Ne.symm hlong), Option.or_none]
      exact h.has
    · rw [Given.has, value?_append, Option.isSome_or]
      exact Bool.or_eq_true_iff.mpr (.inl h.marked)
    · rw [value?_append, value?_append, h.value? long hne]
    · have := h.values long hne
      simp only [Given.values, List.filter_append, List.map_append] at this ⊢
      rw [this]

theorem addAll {options : List (OptionRule × String)} (h : Marked k given given')
    (hoptions : k ∉ options.map (·.1.long)) :
    (given.addAll options = none ∧ given'.addAll options = none) ∨
      ∃ added added', given.addAll options = some added ∧ given'.addAll options = some added' ∧
        Marked k added added' := by
  induction options generalizing given given' with
  | nil => exact .inr ⟨given, given', rfl, rfl, h⟩
  | cons option options ih =>
    rw [List.map_cons, List.mem_cons, not_or] at hoptions
    rw [addAll_cons, addAll_cons]
    obtain ⟨hnone, hnone'⟩ | ⟨added, added', hadd, hadd', hmarked⟩ := h.add (Ne.symm hoptions.1) option.2
    · exact .inl ⟨by rw [hnone]; rfl, by rw [hnone']; rfl⟩
    · rw [hadd, hadd']
      exact ih hmarked hoptions.2

end Marked
end Given

inductive Word where
  | whole
  | awaits (rule : OptionRule)
  | help
  | version
  | misuse

def Word.step : Word → Option Given → Step
  | _, none => .misuse
  | whole, some given => .given given
  | awaits rule, some given => .awaits rule given
  | help, some _ => .help
  | version, some _ => .version
  | misuse, some _ => .misuse

inductive Words where
  | done
  | command (name : String) (arguments : List String)
  | help
  | version
  | misuse

def Words.level : Words → Option Given → Level
  | _, none => .misuse
  | done, some given => .done given
  | command name arguments, some given => .command name arguments given
  | help, some _ => .help
  | version, some _ => .version
  | misuse, some _ => .misuse

theorem Words.level_eq_done {words : Words} {given? : Option Given} {given : Given}
    (h : words.level given? = .done given) : given? = some given ∧ words = done := by
  cases given? <;> cases words <;> cases h
  exact ⟨rfl, rfl⟩

namespace Step

def Spares (k : String) (step : Given → Step) : Prop :=
  ∃ options word, (∀ given, step given = Word.step word (given.addAll options)) ∧
    k ∉ options.map (·.1.long) ∧ ∀ rule, word = .awaits rule → rule.long ≠ k

variable {k : String} {rule : OptionRule} {step : Given → Step}

theorem spares_misuse : Spares k fun _ => misuse := ⟨[], .misuse, fun _ => rfl, List.not_mem_nil, nofun⟩

theorem spares_help : Spares k fun _ => help := ⟨[], .help, fun _ => rfl, List.not_mem_nil, nofun⟩

theorem spares_version : Spares k fun _ => version := ⟨[], .version, fun _ => rfl, List.not_mem_nil, nofun⟩

theorem spares_awaits (h : rule.long ≠ k) : Spares k (awaits rule) :=
  ⟨[], .awaits rule, fun _ => rfl, List.not_mem_nil, fun _ heq => by cases heq; exact h⟩

theorem ofGiven?_eq (given : Option Given) : ofGiven? given = Word.whole.step given := by
  cases given <;> rfl

theorem spares_add (h : rule.long ≠ k) (value : String) :
    Spares k fun given => ofGiven? (given.add rule value) :=
  ⟨[(rule, value)], .whole, fun given => by rw [Given.addAll_singleton]; exact ofGiven?_eq _,
    by simpa using Ne.symm h, nofun⟩

theorem Spares.behind (h : Spares k step) (hrule : rule.long ≠ k) (value : String) :
    Spares k fun given =>
      match given.add rule value with
      | none => misuse
      | some given => step given := by
  obtain ⟨options, word, hstep, hoptions, hword⟩ := h
  refine ⟨(rule, value) :: options, word, fun given => ?_, ?_, hword⟩
  · rw [Given.addAll_cons]
    dsimp only
    cases given.add rule value with
    | none => cases word <;> rfl
    | some added => exact hstep added
  · rw [List.map_cons, List.mem_cons, not_or]
    exact ⟨Ne.symm hrule, hoptions⟩

end Step

def Flag (rules : List OptionRule) (k : String) : Prop :=
  ∀ rule ∈ rules, rule.long = k → rule.kind = .flag ∧ rule.short = none

instance (rules : List OptionRule) (k : String) : Decidable (Flag rules k) :=
  inferInstanceAs (Decidable (∀ rule ∈ rules, rule.long = k → rule.kind = .flag ∧ rule.short = none))

section

variable {rules : List OptionRule} {k : String} (hk : Flag rules k)

include hk

theorem Step.spares_ofLetters (letters : List Char) : Spares k (ofLetters rules · letters) := by
  induction letters with
  | nil => exact ⟨[], .whole, fun _ => rfl, List.not_mem_nil, nofun⟩
  | cons c rest ih =>
    simp only [ofLetters]
    split
    · exact spares_misuse
    rename_i rule hfind
    have hrule : rule.long ≠ k := fun heq => by
      have hshort : rule.short = some c := by simpa using List.find?_some hfind
      rw [(hk rule (List.mem_of_find?_eq_some hfind) heq).2] at hshort
      cases hshort
    split
    · exact spares_help
    · exact spares_version
    · exact ih.behind hrule ""
    · split
      · exact spares_awaits hrule
      · exact spares_add hrule _
      · exact spares_add hrule _

theorem Step.spares_ofName {name : List Char} (hname : name ≠ k.toList) : Spares k (ofName rules · name) := by
  cases hfind : rules.find? (·.long.toList == name.takeWhile (· ≠ '=')) with
  | none =>
    simp only [ofName, hfind]
    exact spares_misuse
  | some rule =>
    simp only [ofName, hfind]
    by_cases hlong : rule.long = k
    · have hkind := (hk rule (List.mem_of_find?_eq_some hfind) hlong).1
      have htake : rule.long.toList = name.takeWhile (· ≠ '=') := by simpa using List.find?_some hfind
      have hdrop : name.drop (name.takeWhile (· ≠ '=')).length ≠ [] := by
        intro hnil
        have heq := (List.takeWhile_prefix _).eq_of_length_le (List.drop_eq_nil_iff.mp hnil)
        exact hname (by rw [← heq, ← htake, hlong])
      simp only [hkind]
      exact spares_misuse
    · split
      · exact spares_help
      · exact spares_version
      · exact spares_add hlong ""
      · exact spares_misuse
      · exact spares_misuse
      · exact spares_misuse
      · exact spares_awaits hlong
      · exact spares_add hlong _

theorem Step.ofName_flag (hplain : '=' ∉ k.toList) :
    ((∀ rule ∈ rules, rule.long ≠ k) ∧ ∀ given, ofName rules given k.toList = misuse) ∨
      ∃ rule ∈ rules, rule.long = k ∧ ∀ given, ofName rules given k.toList = ofGiven? (given.add rule "") := by
  have htake : k.toList.takeWhile (· ≠ '=') = k.toList :=
    List.takeWhile_eq_self_iff.mpr fun c hc => decide_eq_true fun h => hplain (h ▸ hc)
  cases hfind : rules.find? (·.long.toList == k.toList) with
  | none =>
    refine .inl ⟨fun rule hmem hlong => ?_, fun given => ?_⟩
    · exact List.find?_eq_none.mp hfind rule hmem (by rw [hlong, beq_self_eq_true])
    · simp only [ofName, htake, hfind]
  | some rule =>
    have hmem := List.mem_of_find?_eq_some hfind
    have hlong : rule.long = k := String.toList_injective (by simpa using List.find?_some hfind)
    refine .inr ⟨rule, hmem, hlong, fun given => ?_⟩
    simp only [ofName, htake, hfind, List.drop_length, (hk rule hmem hlong).1]

end

def Step.ofWord (rules : List OptionRule) (given : Given) (word : String) : Step :=
  match word.toList with
  | '-' :: '-' :: name => .ofName rules given name
  | '-' :: letters => .ofLetters rules given letters
  | _ => .misuse

variable {rules : List OptionRule} {commands : List String} {k : String}

theorem Level.read_cons (given : Given) (word : String) (rest : List String) :
    read rules commands given (word :: rest) =
      if word = "--" then (if rest.isEmpty then .done given else .misuse)
      else if !isOptionLike word then
        if commands.contains word then .command word rest given else .misuse
      else
        match Step.ofWord rules given word with
        | .given given => read rules commands given rest
        | .help => .help
        | .version => .version
        | .misuse => .misuse
        | .awaits rule given =>
          match rest with
          | [] => .misuse
          | value :: rest =>
            if isOptionLike value then .misuse
            else
              match given.add rule value with
              | none => .misuse
              | some given => read rules commands given rest := by
  rw [read]
  rfl

def flagWord (k : String) : String := "--" ++ k

theorem toList_flagWord (k : String) : (flagWord k).toList = '-' :: '-' :: k.toList := by
  simp [flagWord]

theorem Step.spares_ofWord (hk : Flag rules k) {word : String} (hword : word ≠ flagWord k) :
    Spares k (ofWord rules · word) := by
  simp only [ofWord]
  split
  · rename_i name hname
    refine spares_ofName hk fun heq => hword (String.toList_injective ?_)
    rw [hname, heq, toList_flagWord]
  · exact spares_ofLetters hk _
  · exact spares_misuse

theorem Step.ofWord_flag (rules : List OptionRule) (given : Given) (k : String) :
    ofWord rules given (flagWord k) = ofName rules given k.toList := by
  simp only [ofWord, toList_flagWord]

theorem isOptionLike_flagWord (k : String) : isOptionLike (flagWord k) = true := by
  have hne : flagWord k ≠ "-" := fun h => by
    have := congrArg String.toList h
    rw [toList_flagWord] at this
    cases this
  rw [isOptionLike, toList_flagWord]
  simp [hne]

structure IsFlag (rules : List OptionRule) (k : String) : Prop where
  flag : Flag rules k
  plain : '=' ∉ k.toList
  ne : k ≠ ""

theorem IsFlag.flagWord_ne (hk : IsFlag rules k) : flagWord k ≠ "--" := fun h => by
  have := congrArg String.toList h
  rw [toList_flagWord] at this
  exact hk.ne (String.toList_injective (List.cons.inj (List.cons.inj this).2).2)

namespace Level

structure Scans (rules : List OptionRule) (commands : List String) (k : String) (words : List String)
    (options : List (OptionRule × String)) (ending : Words) : Prop where
  read : ∀ given, Level.read rules commands given words = ending.level (given.addAll options)
  given : k ∈ options.map (·.1.long) → flagWord k ∈ words ∧ ∃ rule ∈ rules, rule.long = k
  done : ending = .done → flagWord k ∈ words → k ∈ options.map (·.1.long)
  command : ∀ name rest, ending = .command name rest → flagWord k ∈ words →
    k ∈ options.map (·.1.long) ∨ flagWord k ∈ rest

variable {word value : String} {rest : List String} {options options' : List (OptionRule × String)}
  {ending : Words}

theorem Scans.behind (h : Scans rules commands k rest options' ending) {words : List String}
    (hwords : flagWord k ∉ words) (hoptions : k ∉ options.map (·.1.long))
    (hread : ∀ given, Level.read rules commands given (words ++ rest) =
      ending.level (given.addAll (options ++ options'))) :
    Scans rules commands k (words ++ rest) (options ++ options') ending := by
  have hflag : flagWord k ∈ words ++ rest ↔ flagWord k ∈ rest := by
    rw [List.mem_append, or_iff_right hwords]
  have hgives : k ∈ (options ++ options').map (·.1.long) ↔ k ∈ options'.map (·.1.long) := by
    rw [List.map_append, List.mem_append, or_iff_right hoptions]
  refine ⟨hread, ?_, ?_, ?_⟩
  · rw [hgives, hflag]
    exact h.given
  · rw [hgives, hflag]
    exact h.done
  · rw [hgives, hflag]
    exact h.command

theorem scans_dashes (hk : IsFlag rules k) (commands : List String) (rest : List String) :
    ∃ options ending, Scans rules commands k ("--" :: rest) options ending := by
  cases rest with
  | nil =>
    refine ⟨[], .done, fun given => by rw [read_cons, if_pos rfl]; rfl, nofun, fun _ hmem => ?_, nofun⟩
    exact absurd (List.mem_singleton.mp hmem) hk.flagWord_ne
  | cons next rest => exact ⟨[], .misuse, fun given => by rw [read_cons, if_pos rfl]; rfl, nofun, nofun, nofun⟩

theorem scans_plain (k : String) (rules : List OptionRule) (commands : List String) (hdashes : word ≠ "--")
    (hlike : isOptionLike word = false) (rest : List String) :
    ∃ options ending, Scans rules commands k (word :: rest) options ending := by
  by_cases hcommand : commands.contains word = true
  · refine ⟨[], .command word rest, fun given => ?_, nofun, nofun, fun name rest' heq hmem => ?_⟩
    · rw [read_cons, if_neg hdashes, if_pos (by rw [hlike]; rfl), if_pos hcommand]
      rfl
    · cases heq
      rcases List.mem_cons.mp hmem with heq | hmem
      · rw [← heq, isOptionLike_flagWord] at hlike
        cases hlike
      · exact .inr hmem
  · refine ⟨[], .misuse, fun given => ?_, nofun, nofun, nofun⟩
    rw [read_cons, if_neg hdashes, if_pos (by rw [hlike]; rfl), if_neg hcommand]
    rfl

theorem read_optionLike (given : Given) (hdashes : word ≠ "--") (hlike : isOptionLike word = true) :
    Level.read rules commands given (word :: rest) =
      match Step.ofWord rules given word with
      | .given given => Level.read rules commands given rest
      | .help => .help
      | .version => .version
      | .misuse => .misuse
      | .awaits rule given =>
        match rest with
        | [] => .misuse
        | value :: rest =>
          if isOptionLike value then .misuse
          else
            match given.add rule value with
            | none => .misuse
            | some given => Level.read rules commands given rest := by
  rw [read_cons, if_neg hdashes, hlike]
  rfl

theorem scans_flag (hk : IsFlag rules k) (hrest : Scans rules commands k rest options ending) :
    ∃ options ending, Scans rules commands k (flagWord k :: rest) options ending := by
  have hread (given : Given) : Level.read rules commands given (flagWord k :: rest) = _ :=
    read_optionLike given hk.flagWord_ne (isOptionLike_flagWord k)
  simp only [Step.ofWord_flag] at hread
  rcases Step.ofName_flag hk.flag hk.plain with ⟨-, hmisuse⟩ | ⟨rule, hmem, hlong, hadd⟩
  · refine ⟨[], .misuse, fun given => ?_, nofun, nofun, nofun⟩
    simp only [hread, hmisuse]
    rfl
  · have hgives : k ∈ ((rule, "") :: options).map (·.1.long) := List.mem_cons.mpr (.inl hlong.symm)
    refine ⟨(rule, "") :: options, ending, fun given => ?_, fun _ => ⟨List.mem_cons_self, rule, hmem, hlong⟩,
      fun _ _ => hgives, fun _ _ _ _ => .inl hgives⟩
    simp only [hread, hadd, Given.addAll_cons]
    cases given.add rule "" with
    | none => cases ending <;> rfl
    | some added => exact hrest.read added

theorem scans_value {rule : OptionRule} (hword : word ≠ flagWord k) (hoptions : k ∉ options.map (·.1.long))
    (hlong : rule.long ≠ k) (hunlike : isOptionLike value = false)
    (hread : ∀ given, Level.read rules commands given (word :: value :: rest) =
      match given.addAll options with
      | none => .misuse
      | some given =>
        match given.add rule value with
        | none => .misuse
        | some given => Level.read rules commands given rest)
    (hrest : Scans rules commands k rest options' ending) :
    ∃ options ending, Scans rules commands k (word :: value :: rest) options ending := by
  have hwords : flagWord k ∉ [word, value] := by
    rw [List.mem_cons, List.mem_singleton, not_or]
    refine ⟨Ne.symm hword, fun heq => ?_⟩
    rw [← heq, isOptionLike_flagWord] at hunlike
    cases hunlike
  have hgives : k ∉ (options ++ [(rule, value)]).map (·.1.long) := by
    rw [List.map_append, List.mem_append, not_or]
    exact ⟨hoptions, List.mem_singleton.not.mpr (Ne.symm hlong)⟩
  refine ⟨(options ++ [(rule, value)]) ++ options', ending, hrest.behind hwords hgives fun given => ?_⟩
  rw [List.cons_append, List.singleton_append, hread, List.append_assoc, List.singleton_append,
    Given.addAll_append]
  cases given.addAll options with
  | none => cases ending <;> rfl
  | some added =>
    simp only [Option.bind_some, Given.addAll_cons]
    cases added.add rule value with
    | none => cases ending <;> rfl
    | some added' => exact hrest.read added'

theorem scans_spared (hdashes : word ≠ "--") (hlike : isOptionLike word = true) (hword : word ≠ flagWord k)
    (hspares : Step.Spares k (Step.ofWord rules · word)) (hrest : Scans rules commands k rest options' ending)
    (hnext : ∀ value next, rest = value :: next → ∃ options ending, Scans rules commands k next options ending) :
    ∃ options ending, Scans rules commands k (word :: rest) options ending := by
  obtain ⟨options, word', hstep, hoptions, hawaits⟩ := hspares
  have hread (given : Given) : Level.read rules commands given (word :: rest) = _ :=
    read_optionLike given hdashes hlike
  simp only [hstep] at hread
  have hover (last : Words) (hdone : last ≠ .done) (hcommand : ∀ name rest, last ≠ .command name rest)
      (hread : ∀ given, Level.read rules commands given (word :: rest) = last.level (given.addAll options)) :
      ∃ options ending, Scans rules commands k (word :: rest) options ending :=
    ⟨options, last, hread, fun h => absurd h hoptions, fun h => absurd h hdone,
      fun name rest h => absurd h (hcommand name rest)⟩
  cases word' with
  | whole =>
    refine ⟨options ++ options', ending, hrest.behind (List.mem_singleton.not.mpr (Ne.symm hword)) hoptions
      fun given => ?_⟩
    rw [List.singleton_append, hread, Given.addAll_append]
    cases given.addAll options with
    | none => cases ending <;> rfl
    | some added => exact hrest.read added
  | help => exact hover .help nofun nofun fun given => by rw [hread]; cases given.addAll options <;> rfl
  | version => exact hover .version nofun nofun fun given => by rw [hread]; cases given.addAll options <;> rfl
  | misuse => exact hover .misuse nofun nofun fun given => by rw [hread]; cases given.addAll options <;> rfl
  | awaits rule =>
    cases rest with
    | nil => exact hover .misuse nofun nofun fun given => by rw [hread]; cases given.addAll options <;> rfl
    | cons value next =>
      cases hvalue : isOptionLike value with
      | true =>
        simp only [hvalue, if_true] at hread
        exact hover .misuse nofun nofun fun given => by rw [hread]; cases given.addAll options <;> rfl
      | false =>
        simp only [hvalue, Bool.false_eq_true, if_false] at hread
        obtain ⟨options', ending, hnext⟩ := hnext value next rfl
        refine scans_value hword hoptions (hawaits rule rfl) hvalue (fun given => ?_) hnext
        rw [hread]
        cases given.addAll options <;> rfl

theorem exists_scans (hk : IsFlag rules k) (commands : List String) (words : List String) :
    ∃ options ending, Scans rules commands k words options ending := by
  induction hlength : words.length using Nat.strong_induction_on generalizing words with
  | _ length ih =>
  cases words with
  | nil => exact ⟨[], .done, fun _ => rfl, nofun, nofun, nofun⟩
  | cons word rest =>
    rw [List.length_cons] at hlength
    obtain ⟨options, ending, hrest⟩ := ih rest.length (by omega) rest rfl
    by_cases hdashes : word = "--"
    · rw [hdashes]
      exact scans_dashes hk commands rest
    cases hlike : isOptionLike word with
    | false => exact scans_plain k rules commands hdashes hlike rest
    | true =>
      by_cases hflag : word = flagWord k
      · rw [hflag]
        exact scans_flag hk hrest
      · refine scans_spared hdashes hlike hflag (Step.spares_ofWord hk.flag hflag) hrest fun value next heq => ?_
        rw [heq, List.length_cons] at hlength
        exact ih next.length (by omega) next rfl

variable {given given' : Given} {words : List String}

theorem has_of_done (hk : IsFlag rules k) (h : Level.read rules commands given words = .done given') :
    given'.has k ↔ given.has k ∨ flagWord k ∈ words := by
  obtain ⟨options, ending, hscans⟩ := exists_scans hk commands words
  obtain ⟨hadd, rfl⟩ := Words.level_eq_done ((hscans.read given).symm.trans h)
  rw [Given.has_addAll hadd]
  exact ⟨Or.imp_right fun hmem => (hscans.given hmem).1, Or.imp_right (hscans.done rfl)⟩

inductive Marked (k : String) : Level → Level → Prop
  | done {given given' : Given} (h : given.Marked k given') : Marked k (.done given) (.done given')
  | command {given given' : Given} (name : String) (rest : List String) (h : given.Marked k given') :
    Marked k (.command name rest given) (.command name rest given')
  | help : Marked k .help .help
  | version : Marked k .version .version
  | misuse : Marked k .misuse .misuse

theorem marked_read (hk : IsFlag rules k) (commands : List String) (hwords : flagWord k ∉ words)
    (h : given.Marked k given') :
    Marked k (Level.read rules commands given words) (Level.read rules commands given' words) := by
  obtain ⟨options, ending, hscans⟩ := exists_scans hk commands words
  rw [hscans.read, hscans.read]
  obtain ⟨hnone, hnone'⟩ | ⟨added, added', hadd, hadd', hmarked⟩ :=
    h.addAll fun hmem => hwords (hscans.given hmem).1
  · rw [hnone, hnone']
    cases ending <;> exact .misuse
  · rw [hadd, hadd']
    cases ending with
    | done => exact .done hmarked
    | command name rest => exact .command name rest hmarked
    | help => exact .help
    | version => exact .version
    | misuse => exact .misuse

theorem read_flag (hk : IsFlag rules k) (hmem : ∃ rule ∈ rules, rule.long = k) (hunset : given.has k = false)
    (commands : List String) (rest : List String) :
    Level.read rules commands given (flagWord k :: rest) = Level.read rules commands (given ++ [(k, "")]) rest := by
  obtain ⟨hnone, -⟩ | ⟨rule, hrule, hlong, hadd⟩ := Step.ofName_flag hk.flag hk.plain
  · obtain ⟨rule, hrule, hlong⟩ := hmem
    exact absurd hlong (hnone rule hrule)
  · have hgiven : given.add rule "" = some (given ++ [(k, "")]) := by
      rw [Given.add, (hk.flag rule hrule hlong).1, hlong, hunset]
      rfl
    simp only [read_optionLike given hk.flagWord_ne (isOptionLike_flagWord k), Step.ofWord_flag, hadd, hgiven,
      Step.ofGiven?]

inductive Takes (rules : List OptionRule) (given : Given) : List String → Given → Prop
  | word {word : String} {added : Given} (dashes : word ≠ "--") (like : isOptionLike word = true)
    (step : Step.ofWord rules given word = .given added) : Takes rules given [word] added
  | value {word value : String} {rule : OptionRule} {awaiting added : Given} (dashes : word ≠ "--")
    (like : isOptionLike word = true) (step : Step.ofWord rules given word = .awaits rule awaiting)
    (unlike : isOptionLike value = false) (add : awaiting.add rule value = some added) :
    Takes rules given [word, value] added

namespace Takes

variable {used : List String} {added : Given}

theorem read (h : Takes rules given used added) (commands : List String) (rest : List String) :
    Level.read rules commands given (used ++ rest) = Level.read rules commands added rest := by
  cases h with
  | word hopen hlike hstep =>
    rw [List.singleton_append, read_optionLike given hopen hlike, hstep]
  | value hopen hlike hstep hunlike hadd =>
    rw [List.cons_append, List.singleton_append, read_optionLike given hopen hlike, hstep]
    simp only [hunlike, hadd, Bool.false_eq_true, if_false]

theorem not_mem (h : Takes rules given used added) : "--" ∉ used := by
  cases h with
  | word hopen => exact List.mem_singleton.not.mpr (Ne.symm hopen)
  | value hopen hlike hstep hunlike =>
    rw [List.mem_cons, List.mem_singleton, not_or]
    refine ⟨Ne.symm hopen, ?_⟩
    rintro rfl
    exact absurd hunlike (by decide)

theorem length_pos (h : Takes rules given used added) : 0 < used.length := by
  cases h <;> exact Nat.succ_pos _

end Takes

theorem read_cases {level : Level} (h : Level.read rules commands given words = level) :
    ((words = [] ∨ words = ["--"]) ∧ level = .done given) ∨
    (∃ word rest, words = word :: rest ∧ level = .command word rest given) ∨
    (∃ used rest added, words = used ++ rest ∧ Takes rules given used added ∧
      Level.read rules commands added rest = level) ∨
    level = .help ∨ level = .version ∨ level = .misuse := by
  subst h
  cases words with
  | nil => exact .inl ⟨.inl rfl, rfl⟩
  | cons word rest =>
    rw [read_cons]
    split_ifs with hdashes hrest hlike hcommand
    · exact .inl ⟨.inr (by rw [hdashes, List.isEmpty_iff.mp hrest]), rfl⟩
    · simp
    · exact .inr (.inl ⟨word, rest, rfl, rfl⟩)
    · simp
    have hlike : isOptionLike word = true := by simpa using hlike
    cases hstep : Step.ofWord rules given word with
    | given added => exact .inr (.inr (.inl ⟨[word], rest, added, rfl, .word hdashes hlike hstep, rfl⟩))
    | awaits rule awaiting =>
      cases rest with
      | nil => simp
      | cons value rest =>
        dsimp only
        split_ifs with hvalue
        · simp
        cases hadd : awaiting.add rule value with
        | none => simp
        | some added =>
          have hunlike := Bool.eq_false_iff.mpr hvalue
          exact .inr (.inr (.inl ⟨[word, value], rest, added, rfl, .value hdashes hlike hstep hunlike hadd, rfl⟩))
    | help | version | misuse => simp

theorem read_append (hdashes : "--" ∉ words) (h : Level.read rules commands given words = .done given')
    (more : List String) :
    Level.read rules commands given (words ++ more) = Level.read rules commands given' more := by
  induction hlength : words.length using Nat.strong_induction_on generalizing words given with
  | _ length ih =>
  obtain ⟨rfl | rfl, hdone⟩ | ⟨word, rest, -, ⟨⟩⟩ | ⟨used, rest, added, rfl, htakes, hrest⟩ | ⟨⟨⟩⟩ | ⟨⟨⟩⟩ | ⟨⟨⟩⟩ :=
    read_cases h
  · cases hdone
    rfl
  · exact absurd List.mem_cons_self hdashes
  · have hpos := htakes.length_pos
    rw [List.length_append] at hlength
    rw [List.append_assoc, htakes.read]
    exact ih rest.length (by omega) (fun hmem => hdashes (List.mem_append_right _ hmem)) hrest rfl

theorem exists_front {name : String} {rest : List String}
    (h : Level.read rules commands given words = .command name rest given') :
    ∃ front, words = front ++ name :: rest ∧ "--" ∉ front ∧
      Level.read rules commands given front = .done given' := by
  induction hlength : words.length using Nat.strong_induction_on generalizing words given with
  | _ length ih =>
  obtain ⟨-, ⟨⟩⟩ | ⟨word, rest', rfl, hcommand⟩ | ⟨used, rest', added, rfl, htakes, hrest⟩ | ⟨⟨⟩⟩ | ⟨⟨⟩⟩ | ⟨⟨⟩⟩ :=
    read_cases h
  · cases hcommand
    exact ⟨[], rfl, List.not_mem_nil, rfl⟩
  · have hpos := htakes.length_pos
    rw [List.length_append] at hlength
    obtain ⟨front, rfl, hopen, hread⟩ := ih rest'.length (by omega) hrest rfl
    refine ⟨used ++ front, by rw [List.append_assoc], ?_, by rw [htakes.read, hread]⟩
    rw [List.mem_append, not_or]
    exact ⟨htakes.not_mem, hopen⟩

end Level

end BuildSync.Arguments
