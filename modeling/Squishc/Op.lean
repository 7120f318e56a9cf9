/-!
# Operators

The operators of Squishi.  Subtraction and unary minus share one operator, as do
their written forms.  A tree that was not read from a source text may use other
operator texts, which mean nothing to any pass.
-/

namespace Squishc

/-- An operator. -/
inductive Op where
  | add
  | sub
  | mul
  | div
  | mod
  | pow
  | lt
  | le
  | eq
  | ne
  | ge
  | gt
  | conj
  | disj
  | not
  | other (text : String)
deriving DecidableEq, Repr, Inhabited

namespace Op

/-- The written form of an operator. -/
def text : Op → String
  | add => "+"
  | sub => "-"
  | mul => "*"
  | div => "/"
  | mod => "%"
  | pow => "**"
  | lt => "<"
  | le => "<="
  | eq => "=="
  | ne => "!="
  | ge => ">="
  | gt => ">"
  | conj => "and"
  | disj => "or"
  | not => "!"
  | other text => text

/-- The operators of the language. -/
def all : List Op :=
  [add, sub, mul, div, mod, pow, lt, le, eq, ne, ge, gt, conj, disj, not]

/-- The operator with the given written form. -/
def ofText (s : String) : Op :=
  (all.find? (fun op => op.text == s)).getD (other s)

/-- The operators that compare two values. -/
def isComparison : Op → Bool
  | lt | le | eq | ne | ge | gt => true
  | _ => false

end Op

end Squishc
