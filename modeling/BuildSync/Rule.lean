import BuildSync.Expr

namespace BuildSync

structure Rule where
  comments : List String
  call : Call
  suffix : Option String

namespace Rule

def dotted (base : Expr) (parts : List String) : Expr :=
  parts.foldl Expr.dot base

def new (kind : String) : Rule :=
  let callee :=
    match kind.splitOn "." with
    | [] => .ident ""
    | first :: parts => dotted (.ident first) parts
  ⟨[], ⟨callee, .empty⟩, none⟩

def kind (r : Rule) : String := r.call.callee.dottedName?.getD ""

def args (r : Rule) : List Item := r.call.args.items

def attr? (r : Rule) (key : String) : Option Expr :=
  (r.args.find? (·.name? == some key)).map (·.value)

def name? (r : Rule) : Option String := (r.attr? "name").bind Expr.text?

/-- The name that a rule is filed under: nothing at all when it has no string for a name. -/
def key (r : Rule) : String := r.name?.getD ""

def attrNames (r : Rule) : List String := r.args.filterMap Item.name?

def setItem (key : String) (value : Expr) : List Item → List Item
  | [] => [.keyword key value]
  | item :: items =>
    if item.name? = some key then { item with value } :: items
    else item :: setItem key value items

def setAttr (r : Rule) (key : String) (value : Expr) : Rule :=
  { r with call.args.items := setItem key value r.args }

theorem find?_setItem (key : String) (value : Expr) (items : List Item) :
    ((setItem key value items).find? (·.name? == some key)).map (·.value) = some value := by
  induction items with
  | nil => simp [setItem, Item.keyword, Item.name?]
  | cons item items ih =>
    by_cases h : item.name? = some key
    · have h' : ({ item with value } : Item).name? = some key := h
      simp [setItem, h, h']
    · simpa [setItem, h] using ih

theorem attr?_setAttr (r : Rule) (key : String) (value : Expr) :
    (r.setAttr key value).attr? key = some value :=
  find?_setItem key value r.args

def alike (a b : Rule) : Bool :=
  a.comments == b.comments && a.call.alike b.call && a.suffix == b.suffix

end Rule

end BuildSync
