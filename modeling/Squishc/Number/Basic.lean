import Squishc.Number.Decimal

/-!
# Numbers

A number of the language is an unbounded integer or a binary64 value.  Integers
are only turned into text, or read from it, up to a fixed number of decimal
digits.
-/

namespace Squishc

/-- A number. -/
inductive Num where
  | int (value : Int)
  | float (value : Float)
deriving DecidableEq, Inhabited

/-- The greatest number of decimal digits that an integer may have in text. -/
def digitLimit : Nat := 4300

/-- The least magnitude that has too many digits. -/
def unwritableMagnitude : Nat := Number.tenTo digitLimit

namespace Num

/-- Whether a number may be turned into text. -/
def writable : Num → Bool
  | int n => decide (n.natAbs < unwritableMagnitude)
  | float _ => true

/-- The text of a number in a listing. -/
def text : Num → String
  | int n => toString n
  | float x =>
    if x.isNaN then "nan"
    else if x.isInf then (if x < 0 then "-inf" else "inf")
    else Number.finiteText x

/-- The text of a number in JavaScript. -/
def literal : Num → String
  | int n => toString n
  | float x =>
    if x.isNaN then "NaN"
    else if x.isInf then (if x < 0 then "-Infinity" else "Infinity")
    else Number.finiteText x

/-- The number with its sign turned. -/
def neg : Num → Num
  | int n => int (-n)
  | float x => float (-x)

/-- Whether a number is zero, of either sign. -/
def isZero : Num → Bool
  | int n => n == 0
  | float x => x == 0

/-- Whether a number is one. -/
def isOne : Num → Bool
  | int n => n == 1
  | float x => x == 1

/-- The number as a binary64 value, if it is in range. -/
def toFloat? : Num → Option Float
  | int n => Number.floatOfInt? n
  | float x => some x

/-- Compares an integer with a binary64 value exactly; nothing compares with a
value that is no number. -/
def compareIntFloat (n : Int) (x : Float) : Option Ordering :=
  if x.isNaN then none
  else if x.isInf then some (if x < 0 then .gt else .lt)
  else
    let s := Number.Scaled.ofFloat x
    let (num, den) := s.ratio
    let signed : Int := if s.negative then -(num : Int) else num
    some (compare (n * den) signed)

/-- The order of two numbers, by their exact values. -/
def compare? : Num → Num → Option Ordering
  | int m, int n => some (compare m n)
  | int m, float y => compareIntFloat m y
  | float x, int n => (compareIntFloat n x).map Ordering.swap
  | float x, float y =>
    if x < y then some .lt
    else if x == y then some .eq
    else if y < x then some .gt
    else none

end Num

end Squishc
