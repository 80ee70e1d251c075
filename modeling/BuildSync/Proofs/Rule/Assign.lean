import BuildSync.Proofs.Rule.Attributes
import Mathlib.Data.List.Induction

namespace BuildSync

abbrev Values := List (String × Expr)

namespace Values

variable {key name : String} {value : Expr} {values : Values}

def put (key : String) (value : Expr) : Values → Values
  | [] => [(key, value)]
  | (k, v) :: values => if k = key then (key, value) :: values else (k, v) :: put key value values

def without (key : String) (values : Values) : Values := values.filter (·.1 != key)

theorem lookup_cons (entry : String × Expr) (values : Values) (name : String) :
    List.lookup name (entry :: values) = if name = entry.1 then some entry.2 else values.lookup name := by
  obtain ⟨k, v⟩ := entry
  rw [List.lookup_cons]
  split <;> simp_all

theorem lookup_put (key name : String) (value : Expr) (values : Values) :
    (put key value values).lookup name = if name = key then some value else values.lookup name := by
  induction values with
  | nil => exact lookup_cons (key, value) [] name
  | cons entry values ih =>
    rw [put]
    split_ifs with hk hn hn
    · rw [lookup_cons, if_pos hn]
    · rw [lookup_cons, lookup_cons, if_neg hn, if_neg (hk ▸ hn)]
    · rw [lookup_cons, if_neg (hn ▸ Ne.symm hk), ih, if_pos hn]
    · rw [lookup_cons, lookup_cons, ih, if_neg hn]

theorem lookup_without (key name : String) (values : Values) :
    (without key values).lookup name = if name = key then none else values.lookup name := by
  induction values with
  | nil =>
    split_ifs
    · rfl
    · rfl
  | cons entry values ih =>
    rw [without, List.filter_cons]
    by_cases hk : entry.1 = key
    · rw [if_neg (by simpa using hk), ← without, ih, lookup_cons, hk]
      split_ifs <;> rfl
    · rw [if_pos (by simpa using hk), lookup_cons, ← without, ih, lookup_cons]
      split_ifs with hn hkey
      · exact absurd (hn ▸ hkey) hk
      · rfl
      · rfl
      · rfl

theorem without_put (key : String) (value : Expr) (values : Values) :
    without key (put key value values) = without key values := by
  induction values with
  | nil => simp [put, without]
  | cons entry values ih =>
    rw [put]
    split_ifs with hk
    · simp [without, hk]
    · rw [without, List.filter_cons_of_pos (by simpa using hk), ← without, ih, without, without,
        List.filter_cons_of_pos (by simpa using hk)]

theorem without_put_ne (hne : key ≠ name) (value : Expr) (values : Values) :
    without name (put key value values) = put key value (without name values) := by
  induction values with
  | nil => simp [put, without, hne]
  | cons entry values ih =>
    rw [put]
    split_ifs with hk
    · have hk' : entry.1 ≠ name := hk ▸ hne
      simp [without, put, hk, hne]
    · by_cases hn : entry.1 = name
      · rw [without, List.filter_cons_of_neg (by simpa using hn), ← without, ih, without, without,
          List.filter_cons_of_neg (by simpa using hn)]
      · rw [without, List.filter_cons_of_pos (by simpa using hn), ← without, ih, without, without,
          List.filter_cons_of_pos (by simpa using hn), put, if_neg hk]

theorem without_eq_self (h : values.lookup key = none) : without key values = values := by
  induction values with
  | nil => rfl
  | cons entry values ih =>
    rw [lookup_cons] at h
    split_ifs at h with hk
    rw [without, List.filter_cons_of_pos (by simpa using Ne.symm hk), ← without, ih h]

theorem put_new (h : values.lookup key = none) (value : Expr) :
    put key value values = values ++ [(key, value)] := by
  induction values with
  | nil => rfl
  | cons entry values ih =>
    rw [lookup_cons] at h
    split_ifs at h with hk
    rw [put, if_neg (Ne.symm hk), ih h, List.cons_append]

end Values

namespace Item

open Values

def assign : Values → List Item → List Item
  | values, [] => values.map fun v => .keyword v.1 v.2
  | values, item :: items =>
    match item.name? with
    | none => item :: assign values items
    | some name =>
      match values.lookup name with
      | none => item :: assign values items
      | some value => { item with value } :: assign (without name values) items

variable {key : String} {value : Expr}

theorem assign_nil (items : List Item) : assign [] items = items := by
  induction items with
  | nil => rfl
  | cons item items ih =>
    rw [assign]
    split
    · rw [ih]
    · rw [List.lookup_nil]
      exact congrArg (item :: ·) ih

theorem setItem_new (key : String) (value : Expr) (values : Values) :
    Rule.setItem key value (values.map fun v => .keyword v.1 v.2) =
      (put key value values).map fun v => .keyword v.1 v.2 := by
  induction values with
  | nil => rfl
  | cons entry values ih =>
    rw [List.map_cons, Rule.setItem, put]
    have hname : (keyword entry.1 entry.2).name? = some entry.1 := rfl
    simp only [hname, Option.some.injEq]
    split_ifs with hk
    · rw [List.map_cons, hk]
      rfl
    · rw [List.map_cons, ih]

theorem setItem_assign (key : String) (value : Expr) (values : Values) (items : List Item) :
    Rule.setItem key value (assign values items) = assign (put key value values) items := by
  induction items generalizing values with
  | nil => exact setItem_new key value values
  | cons item items ih =>
    rw [assign, assign]
    cases hname : item.name? with
    | none =>
      dsimp only
      rw [Rule.setItem, if_neg (by simp [hname]), ih]
    | some name =>
      dsimp only
      rw [lookup_put]
      by_cases hk : name = key
      · subst hk
        rw [if_pos rfl]
        dsimp only
        rw [without_put]
        cases hv : values.lookup name with
        | none =>
          dsimp only
          rw [Rule.setItem, if_pos hname, without_eq_self hv]
        | some v =>
          have hname' : ({ item with value := v } : Item).name? = some name := hname
          dsimp only
          rw [Rule.setItem, if_pos hname']
      · have hkey : item.name? ≠ some key := by
          rw [hname]
          exact fun h => hk (Option.some.inj h)
        rw [if_neg hk]
        cases hv : values.lookup name with
        | none =>
          dsimp only
          rw [Rule.setItem, if_neg hkey, ih]
        | some v =>
          have hkey' : ({ item with value := v } : Item).name? ≠ some key := hkey
          dsimp only
          rw [Rule.setItem, if_neg hkey', ih, without_put_ne (Ne.symm hk)]

theorem find?_named {item : Item} (h : item.name? = some key) (items : List Item) :
    (item :: items).find? (·.name? == some key) = some item :=
  List.find?_cons_of_pos (by simp [h])

theorem find?_unnamed {item : Item} (h : item.name? ≠ some key) (items : List Item) :
    (item :: items).find? (·.name? == some key) = items.find? (·.name? == some key) :=
  List.find?_cons_of_neg (by simpa using h)

theorem find?_new (key : String) (values : Values) :
    ((values.map fun v => keyword v.1 v.2).find? (·.name? == some key)).map (·.value) =
      values.lookup key := by
  induction values with
  | nil => rfl
  | cons entry values ih =>
    have hname : (keyword entry.1 entry.2).name? = some entry.1 := rfl
    rw [List.map_cons, lookup_cons]
    split_ifs with hk
    · rw [find?_named (hk ▸ hname)]
      rfl
    · rw [find?_unnamed (by rw [hname]; exact fun h => hk (Option.some.inj h).symm), ih]

theorem find?_assign (key : String) (values : Values) (items : List Item) :
    ((assign values items).find? (·.name? == some key)).map (·.value) =
      (values.lookup key).or ((items.find? (·.name? == some key)).map (·.value)) := by
  induction items generalizing values with
  | nil =>
    rw [assign, find?_new]
    simp
  | cons item items ih =>
    rw [assign]
    cases hname : item.name? with
    | none =>
      have hkey : item.name? ≠ some key := by simp [hname]
      dsimp only
      rw [find?_unnamed hkey, find?_unnamed hkey, ih]
    | some name =>
      dsimp only
      by_cases hk : name = key
      · subst hk
        rw [find?_named hname items]
        cases hv : values.lookup name with
        | none =>
          dsimp only
          rw [find?_named hname]
          rfl
        | some v =>
          have hname' : ({ item with value := v } : Item).name? = some name := hname
          dsimp only
          rw [find?_named hname']
          rfl
      · have hkey : item.name? ≠ some key := by simpa [hname] using hk
        rw [find?_unnamed hkey items]
        cases hv : values.lookup name with
        | none =>
          dsimp only
          rw [find?_unnamed hkey, ih]
        | some v =>
          have hkey' : ({ item with value := v } : Item).name? ≠ some key := hkey
          dsimp only
          rw [find?_unnamed hkey', ih, lookup_without, if_neg (Ne.symm hk)]

end Item

namespace Rule

def assign (r : Rule) (values : Values) : Rule :=
  { r with call.args.items := Item.assign values r.args }

variable {r : Rule}

@[simp] theorem assign_nil (r : Rule) : r.assign [] = r := by
  obtain ⟨comments, ⟨callee, ⟨items, trailing⟩⟩, suffix⟩ := r
  simp only [assign, args, Item.assign_nil]

theorem setAttr_assign (r : Rule) (values : Values) (key : String) (value : Expr) :
    (r.assign values).setAttr key value = r.assign (values.put key value) := by
  simp only [setAttr, assign, args, Item.setItem_assign]

theorem assign_assign {values more : Values} (h : (more.map Prod.fst).Nodup) (r : Rule) :
    (r.assign values).assign more = r.assign (more.foldl (fun vs v => vs.put v.1 v.2) values) := by
  induction more using List.reverseRecOn with
  | nil => exact assign_nil _
  | append_singleton more v ih =>
    rw [List.map_append, List.nodup_append] at h
    obtain ⟨hmore, -, hnew⟩ := h
    have hnone : List.lookup v.1 more = none := by
      rw [List.lookup_eq_none_iff]
      intro w hw
      simpa using (hnew w.1 (List.mem_map_of_mem hw) v.1 (by simp)).symm
    calc
      (r.assign values).assign (more ++ [v]) = (r.assign values).assign (Values.put v.1 v.2 more) := by
        rw [Values.put_new hnone]
      _ = (r.assign (more.foldl (fun vs v => vs.put v.1 v.2) values)).setAttr v.1 v.2 := by
        rw [← setAttr_assign, ih hmore]
      _ = r.assign ((more ++ [v]).foldl (fun vs v => vs.put v.1 v.2) values) := by
        rw [setAttr_assign, List.foldl_append]
        rfl

theorem attr?_assign (r : Rule) (values : Values) (key : String) :
    (r.assign values).attr? key = (values.lookup key).or (r.attr? key) :=
  Item.find?_assign key values r.args

end Rule
end BuildSync
