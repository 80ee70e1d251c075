import BuildSync.Proofs.Rule.Assign

/-!
Histories of writes to the attributes of a rule. What is read afterwards is what was written last, and but
for the values that were written the rule is what it was, with the new attributes behind the old ones.
-/

namespace BuildSync

namespace Values

variable {key : String} {value : Expr} {values : Values} {entry : String × Expr}

theorem map_fst_put (key : String) (value : Expr) (values : Values) :
    (put key value values).map Prod.fst =
      if key ∈ values.map Prod.fst then values.map Prod.fst else values.map Prod.fst ++ [key] := by
  induction values with
  | nil => rfl
  | cons entry values ih =>
    rw [put]
    by_cases hk : entry.1 = key
    · rw [if_pos hk]
      simp [hk]
    · rw [if_neg hk, List.map_cons, ih]
      simp only [List.map_cons, List.mem_cons, Ne.symm hk, false_or]
      split_ifs <;> rfl

theorem lookup_of_mem (h : (values.map Prod.fst).Nodup) (hmem : entry ∈ values) :
    values.lookup entry.1 = some entry.2 := by
  induction values with
  | nil => cases hmem
  | cons first values ih =>
    obtain ⟨hnew, hrest⟩ := List.nodup_cons.mp h
    rw [lookup_cons]
    rcases List.mem_cons.mp hmem with rfl | hmem
    · rw [if_pos rfl]
    · have hne : entry.1 ≠ first.1 := fun heq => hnew (heq ▸ List.mem_map_of_mem hmem)
      rw [if_neg hne, ih hrest hmem]

end Values

namespace Item

open Values

def updated (value? : String → Option Expr) (before : List Item) (item : Item) : Item :=
  match item.name? with
  | none => item
  | some name =>
    if before.any (·.name? == some name) then item
    else (value? name).elim item fun value => { item with value }

variable {item : Item} {name : String} {value? : String → Option Expr}

theorem updated_unnamed (h : item.name? = none) (value? : String → Option Expr) (before : List Item) :
    item.updated value? before = item := by
  rw [updated, h]

theorem updated_first (h : item.name? = some name) (value? : String → Option Expr) :
    item.updated value? [] = (value? name).elim item fun value => { item with value } := by
  rw [updated, h]
  rfl

theorem updated_cons_unnamed {first : Item} (h : first.name? = none) (value? : String → Option Expr)
    (before : List Item) (item : Item) : item.updated value? (first :: before) = item.updated value? before := by
  unfold updated
  cases item.name? with
  | none => rfl
  | some n => simp [h]

theorem updated_cons_named {first : Item} (h : first.name? = some name) {values values' : Values}
    (hsame : ∀ n, n ≠ name → values'.lookup n = values.lookup n) (hnone : values'.lookup name = none)
    (before : List Item) (item : Item) :
    item.updated (fun n => values.lookup n) (first :: before) = item.updated (fun n => values'.lookup n) before := by
  unfold updated
  cases hitem : item.name? with
  | none => rfl
  | some n =>
    by_cases hn : n = name
    · subst hn
      simp [h, hnone]
    · simp [h, hsame n hn, Ne.symm hn]

theorem assign_eq (values : Values) (items : List Item) :
    assign values items = items.mapIdx (fun i item => item.updated (fun n => values.lookup n) (items.take i)) ++
      (values.filter fun v => v.1 ∉ items.filterMap name?).map fun v => .keyword v.1 v.2 := by
  induction items generalizing values with
  | nil => simp [assign]
  | cons item items ih =>
    rw [assign, List.mapIdx_cons, List.take_zero]
    simp only [List.take_succ_cons]
    cases hname : item.name? with
    | none =>
      simp only [updated_unnamed hname, updated_cons_unnamed hname, List.filterMap_cons, hname, List.cons_append,
        ih values]
    | some name =>
      rw [updated_first hname]
      cases hvalue : values.lookup name with
      | none =>
        have hothers (v : String × Expr) (hv : v ∈ values) : v.1 ≠ name := by
          simpa using Ne.symm (bne_iff_ne.mp (List.lookup_eq_none_iff.mp hvalue v hv))
        have hfilter : values.filter (fun v => v.1 ∉ (item :: items).filterMap name?) =
            values.filter fun v => v.1 ∉ items.filterMap name? :=
          List.filter_congr fun v hv => by simp [hname, hothers v hv]
        simp only [hvalue, updated_cons_named hname (fun _ _ => rfl) hvalue, hfilter, List.cons_append,
          Option.elim_none, ih values]
      | some value =>
        have hfilter : values.filter (fun v => v.1 ∉ (item :: items).filterMap name?) =
            (without name values).filter fun v => v.1 ∉ items.filterMap name? := by
          rw [without, List.filter_filter]
          refine List.filter_congr fun v _ => ?_
          by_cases hv : v.1 = name <;> simp [hname, hv]
        have hsame (n : String) (hn : n ≠ name) : (without name values).lookup n = values.lookup n := by
          rw [lookup_without, if_neg hn]
        have hnone : (without name values).lookup name = none := by rw [lookup_without, if_pos rfl]
        simp only [hvalue, updated_cons_named hname hsame hnone, hfilter, List.cons_append, Option.elim_some,
          ih (without name values)]

end Item

namespace Rule

def Holds (r : Rule) (key : String) (v : AttrValue) : Prop :=
  r.get key = .ok (some v) ∧
    match v with
    | .text value => r.getText key = .ok (some value)
    | .texts values => r.getTexts key = .ok values

theorem holds_of_attr? {r : Rule} {key : String} {v : AttrValue}
    (h : (r.attr? key).bind AttrValue.ofExpr? = some v) : r.Holds key v := by
  obtain ⟨e, he, hv⟩ := Option.bind_eq_some_iff.mp h
  refine ⟨by rw [get, he]; simp only [hv], ?_⟩
  unfold AttrValue.ofExpr? at hv
  cases htext : e.text? with
  | some value =>
    rw [htext] at hv
    cases hv
    simp only [getText, he, htext]
  | none =>
    rw [htext] at hv
    obtain ⟨values, hvalues, rfl⟩ := Option.map_eq_some_iff.mp hv
    simp only [getTexts, he, hvalues]

theorem Holds.attr? {r : Rule} {key : String} {v : AttrValue} (h : r.Holds key v) :
    (r.attr? key).bind AttrValue.ofExpr? = some v := by
  have hget := h.1
  rw [get] at hget
  cases he : r.attr? key with
  | none =>
    rw [he] at hget
    cases hget
  | some e =>
    rw [he] at hget
    cases hv : AttrValue.ofExpr? e with
    | none => simp [hv] at hget
    | some w => simpa [hv] using hget

inductive Write where
  | expr (key : String) (value : Expr)
  | shaped (key : String) (value : AttrValue)
  | text (key value : String)
  | texts (key : String) (values : List String)

namespace Write

def run (r : Rule) : Write → Rule
  | expr key value => r.setAttr key value
  | shaped key value => r.set key value
  | text key value => r.setText key value
  | texts key values => r.setTexts key values

def key : Write → String
  | expr key _ | shaped key _ | text key _ | texts key _ => key

def value : Write → Expr
  | expr _ value => value
  | shaped _ value => value.toExpr
  | text _ value => .text value
  | texts _ values => .textList values

def runAll (r : Rule) (ws : List Write) : Rule := ws.foldl run r

def last? (ws : List Write) (key : String) : Option Expr := (ws.reverse.find? (·.key == key)).map value

def added (ws : List Write) (r : Rule) : List String := (ws.map key).eraseDups.filter (· ∉ r.attrNames)

def kept (ws : List Write) (r : Rule) : List Item :=
  r.args.mapIdx fun i item => item.updated (last? ws) (r.args.take i)

theorem run_eq (r : Rule) (w : Write) : w.run r = r.setAttr w.key w.value := by
  cases w <;> rfl

theorem last?_append (ws : List Write) (w : Write) (key : String) :
    last? (ws ++ [w]) key = if key = w.key then some w.value else last? ws key := by
  rw [last?, List.reverse_append, List.reverse_singleton, List.singleton_append]
  split_ifs with hk
  · rw [List.find?_cons_of_pos (by simp [hk])]
    rfl
  · rw [List.find?_cons_of_neg (by simpa using Ne.symm hk)]
    rfl

def values (ws : List Write) : Values := ws.foldl (fun vs w => vs.put w.key w.value) []

theorem values_append (ws : List Write) (w : Write) : values (ws ++ [w]) = (values ws).put w.key w.value :=
  List.foldl_append

theorem lookup_values (ws : List Write) (key : String) : (values ws).lookup key = last? ws key := by
  induction ws using List.reverseRecOn with
  | nil => rfl
  | append_singleton ws w ih => rw [values_append, Values.lookup_put, last?_append, ih]

theorem map_fst_values (ws : List Write) : (values ws).map Prod.fst = (ws.map Write.key).eraseDups := by
  induction ws using List.reverseRecOn with
  | nil => rfl
  | append_singleton ws w ih =>
    have hremoved : [w.key].removeAll (ws.map Write.key) = if w.key ∈ ws.map Write.key then [] else [w.key] := by
      by_cases hk : w.key ∈ ws.map Write.key
      · rw [if_pos hk, List.removeAll, List.filter_cons_of_neg (by simpa using hk), List.filter_nil]
      · rw [if_neg hk, List.removeAll, List.filter_cons_of_pos (by simpa using hk), List.filter_nil]
    rw [values_append, Values.map_fst_put, ih, List.map_append, List.eraseDups_append, List.map_singleton, hremoved]
    simp only [List.mem_eraseDups]
    split_ifs
    · exact (List.append_nil _).symm
    · rfl

theorem nodup_values (ws : List Write) : ((values ws).map Prod.fst).Nodup := by
  induction ws using List.reverseRecOn with
  | nil => exact List.nodup_nil
  | append_singleton ws w ih =>
    rw [values_append, Values.map_fst_put]
    split_ifs with hk
    · exact ih
    · refine List.nodup_append.mpr ⟨ih, List.pairwise_singleton _ _, fun name hname new hnew heq => hk ?_⟩
      rwa [← List.mem_singleton.mp hnew, ← heq]

theorem runAll_eq_assign (r : Rule) (ws : List Write) : runAll r ws = r.assign (values ws) := by
  induction ws using List.reverseRecOn with
  | nil => exact (assign_nil r).symm
  | append_singleton ws w ih =>
    calc runAll r (ws ++ [w])
      _ = w.run (runAll r ws) := List.foldl_append
      _ = (r.assign (values ws)).setAttr w.key w.value := by rw [run_eq, ih]
      _ = r.assign (values (ws ++ [w])) := by rw [setAttr_assign, values_append]

theorem added_eq (ws : List Write) (r : Rule) :
    added ws r = ((values ws).filter fun v => v.1 ∉ r.attrNames).map Prod.fst := by
  rw [added, ← map_fst_values, List.filter_map]
  rfl

def Appends (ws : List Write) : List String → List Item → Prop :=
  List.Forall₂ fun key item => ∃ value, last? ws key = some value ∧ item = .keyword key value

theorem appends_added (ws : List Write) (r : Rule) :
    Appends ws (added ws r) (((values ws).filter fun v => v.1 ∉ r.attrNames).map fun v => .keyword v.1 v.2) := by
  rw [added_eq, Appends, List.forall₂_map_left_iff, List.forall₂_map_right_iff, List.forall₂_same]
  intro v hv
  refine ⟨v.2, ?_, rfl⟩
  rw [← lookup_values]
  exact Values.lookup_of_mem (nodup_values ws) (List.mem_of_mem_filter hv)

theorem attr?_runAll (r : Rule) (ws : List Write) (key : String) :
    (runAll r ws).attr? key = (last? ws key).or (r.attr? key) := by
  rw [runAll_eq_assign, attr?_assign, lookup_values]

theorem runAll_eq (r : Rule) (ws : List Write) :
    ∃ new, Appends ws (added ws r) new ∧ runAll r ws = { r with call.args.items := kept ws r ++ new } := by
  refine ⟨_, appends_added ws r, ?_⟩
  rw [runAll_eq_assign, assign, Item.assign_eq]
  simp only [lookup_values]
  rfl

/-- After any writes a name has the value that was written last under it, or the one that it had. Arguments
stay what and where they are but for these values, and new ones go behind them. -/
theorem runAll_reads_last (r : Rule) (ws : List Write) :
    (∀ key, (runAll r ws).attr? key = (last? ws key).or (r.attr? key)) ∧
    (∀ key v, last? ws key = some v.toExpr → (runAll r ws).Holds key v) ∧
    (∀ key v, last? ws key = none → r.Holds key v → (runAll r ws).Holds key v) ∧
    ∃ new, Appends ws (added ws r) new ∧ runAll r ws = { r with call.args.items := kept ws r ++ new } := by
  refine ⟨attr?_runAll r ws, fun key v hlast => ?_, fun key v hlast hv => ?_, runAll_eq r ws⟩
  · apply holds_of_attr?
    rw [attr?_runAll, hlast, Option.some_or]
    exact AttrValue.ofExpr?_toExpr v
  · apply holds_of_attr?
    rw [attr?_runAll, hlast, Option.none_or]
    exact hv.attr?

def mixedItems (urls : Expr) : List Item :=
  [⟨["# First."], .bare, .ident "x", none⟩, ⟨[], .name "name", .text "a", some "# Name."⟩,
    ⟨["# Mirrors."], .name "urls", urls, some "# Here."⟩, ⟨["# Again."], .name "urls", .text "w", none⟩]

def mixed (items : List Item) : Rule := ⟨["# Above."], ⟨.ident "rpm", ⟨items, ["# Last."]⟩⟩, some "# Behind."⟩

theorem runAll_reads_last_repeated :
    let ws : List Write := [.texts "urls" ["u"], .text "sha256" "1", .texts "urls" ["v"]]
    let r := mixed (mixedItems (Expr.textList ["t"]))
    (runAll r ws).Holds "urls" (.texts ["v"]) ∧ (runAll r ws).Holds "name" (.text "a") ∧
      runAll r ws = mixed (mixedItems (Expr.textList ["v"]) ++ [.keyword "sha256" (.text "1")]) := by
  obtain ⟨-, hwritten, hkept, new, hnew, hall⟩ := runAll_reads_last (mixed (mixedItems (Expr.textList ["t"])))
    [.texts "urls" ["u"], .text "sha256" "1", .texts "urls" ["v"]]
  refine ⟨hwritten "urls" (.texts ["v"]) rfl, hkept "name" (.text "a") rfl ⟨rfl, rfl⟩, ?_⟩
  have hadded : added [.texts "urls" ["u"], .text "sha256" "1", .texts "urls" ["v"]]
      (mixed (mixedItems (Expr.textList ["t"]))) = ["sha256"] := by decide
  rw [hadded] at hnew
  cases hnew with
  | cons hitem hrest =>
    obtain ⟨value, hvalue, rfl⟩ := hitem
    cases hrest
    cases hvalue
    rw [hall]
    rfl

end Write
end Rule
end BuildSync
