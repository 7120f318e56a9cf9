/-!
# Types of Squishi expressions

Every expression has one of six primitive types or an array type over an
element type.  The type `any` stands for a value about which nothing is known;
it is compatible with every type, at any depth inside arrays.
-/

namespace Squishc

/-- A type descriptor. -/
inductive Ty where
  | boolean
  | int
  | float
  | string
  | void
  | any
  | array (element : Ty)
deriving DecidableEq, Repr, Inhabited

namespace Ty

/-- The name of a type in messages and listings. -/
def name : Ty → String
  | boolean => "boolean"
  | int => "int"
  | float => "float"
  | string => "string"
  | void => "void"
  | any => "any"
  | array element => "[" ++ element.name ++ "]"

/-- Two descriptors are the same when their tags agree and, for arrays, their
element types are the same. -/
def same : Ty → Ty → Bool
  | boolean, boolean => true
  | int, int => true
  | float, float => true
  | string, string => true
  | void, void => true
  | any, any => true
  | array a, array b => same a b
  | _, _ => false

/-- The unknown type. -/
def isAny : Ty → Bool
  | any => true
  | _ => false

/-- A type whose values may take part in arithmetic. -/
def isNumber : Ty → Bool
  | any => true
  | int => true
  | float => true
  | _ => false

/-- Whether a value of one type may stand where the other is expected: `any`
goes with everything, arrays are compared by their elements, and all other
types only go with themselves. -/
def compatible : Ty → Ty → Bool
  | any, _ => true
  | _, any => true
  | array a, array b => compatible a b
  | a, b => same a b

@[simp] theorem same_self (t : Ty) : same t t = true := by
  induction t with
  | array element ih => simpa [same] using ih
  | _ => rfl

/-- Sameness of descriptors is equality. -/
theorem same_iff_eq {a b : Ty} : same a b = true ↔ a = b := by
  constructor
  · intro h
    induction a generalizing b with
    | array element ih =>
      cases b with
      | array other => exact congrArg array (ih (by simpa [same] using h))
      | _ => simp [same] at h
    | _ => cases b <;> simp [same] at h ⊢
  · rintro rfl
    exact same_self a

end Ty

end Squishc
