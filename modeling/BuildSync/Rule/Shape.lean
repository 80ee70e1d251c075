import BuildSync.Rule
import BuildSync.Text.Escaped

namespace BuildSync

inductive AttrValue where
  | text (value : String)
  | texts (values : List String)
  deriving DecidableEq, Repr

def AttrValue.ofExpr? (e : Expr) : Option AttrValue :=
  match e.text? with
  | some value => some (.text value)
  | none => e.textList?.map .texts

def AttrValue.toExpr : AttrValue → Expr
  | text value => .text value
  | texts values => .textList values

theorem AttrValue.ofExpr?_toExpr (v : AttrValue) : ofExpr? v.toExpr = some v := by
  cases v with
  | text value => rfl
  | texts values =>
    have h : (Expr.textList values).text? = none := rfl
    simp [ofExpr?, toExpr, h, Expr.textList?_textList]

inductive Shape where
  | text
  | texts
  | either
  deriving DecidableEq, Repr

def Shape.describe : Shape → String
  | text => "a string"
  | texts => "a list of strings"
  | either => "a string or a list of strings"

structure ShapeError where
  kind : String
  name : String
  key : String
  expected : Shape
  deriving DecidableEq, Repr

def ShapeError.message (e : ShapeError) : String :=
  e.kind ++ " rule " ++ escaped '"' e.name ++ ": attribute `" ++ e.key ++ "` is not " ++
    e.expected.describe

namespace Rule

def shapeError (r : Rule) (key : String) (expected : Shape) : ShapeError :=
  ⟨r.kind, r.key, key, expected⟩

def get (r : Rule) (key : String) : Except ShapeError (Option AttrValue) :=
  match r.attr? key with
  | none => .ok none
  | some e =>
    match AttrValue.ofExpr? e with
    | some v => .ok (some v)
    | none => .error (r.shapeError key .either)

def getText (r : Rule) (key : String) : Except ShapeError (Option String) :=
  match r.attr? key with
  | none => .ok none
  | some e =>
    match e.text? with
    | some v => .ok (some v)
    | none => .error (r.shapeError key .text)

def getTexts (r : Rule) (key : String) : Except ShapeError (List String) :=
  match r.attr? key with
  | none => .ok []
  | some e =>
    match e.textList? with
    | some vs => .ok vs
    | none => .error (r.shapeError key .texts)

def set (r : Rule) (key : String) (value : AttrValue) : Rule := r.setAttr key value.toExpr

def setText (r : Rule) (key value : String) : Rule := r.set key (.text value)

def setTexts (r : Rule) (key : String) (values : List String) : Rule := r.set key (.texts values)

end Rule

end BuildSync
