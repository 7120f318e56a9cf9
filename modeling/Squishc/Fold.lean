import Squishc.Number.Basic
import Squishc.Op

/-!
# Folding

The result of an operator on two known numbers.  Nothing is folded when the
result would not be a number: a division by zero, a result out of range, a
complex root.  Integer operations are exact; a quotient of integers and a
negative power are computed as binary64 values and become integers again when
they are integral.
-/

namespace Squishc

/-- A known value: a number or a truth value. -/
inductive Constant where
  | number (value : Num)
  | truth (value : Bool)
deriving DecidableEq, Inhabited

namespace Num

/-- The greatest magnitude of an exponent that is folded. -/
def exponentLimit : Nat := 1024

/-- Whether an exponent is small enough to be folded.  A value that is no number
passes. -/
def foldableExponent : Num → Bool
  | int n => decide (n.natAbs ≤ exponentLimit)
  | float x => !(x.abs > 1024)

/-- Applies an operation to two numbers as binary64 values, if both are in
range. -/
def asFloats (operation : Float → Float → Option Float) (a b : Num) : Option Num :=
  match a.toFloat?, b.toFloat? with
  | some x, some y => (operation x y).map float
  | _, _ => none

/-- Sum of two numbers. -/
def add? : Num → Num → Option Num
  | int m, int n => some (int (m + n))
  | a, b => asFloats (fun x y => some (x + y)) a b

/-- Difference of two numbers. -/
def sub? : Num → Num → Option Num
  | int m, int n => some (int (m - n))
  | a, b => asFloats (fun x y => some (x - y)) a b

/-- Product of two numbers. -/
def mul? : Num → Num → Option Num
  | int m, int n => some (int (m * n))
  | a, b => asFloats (fun x y => some (x * y)) a b

/-- A binary64 result of integer operands, as an integer if it is integral. -/
def settle (x : Float) : Num :=
  match Number.intOfFloat? x with
  | some n => int n
  | none => float x

/-- Quotient of two numbers, unless the divisor is zero. -/
def div? : Num → Num → Option Num
  | int m, int n => (Number.quotient? m n).map settle
  | a, b => asFloats (fun x y => if y == 0 then none else some (x / y)) a b

/-- Remainder of binary64 values with the sign of the dividend.  An infinite
dividend and a zero divisor have none; an infinite divisor leaves a finite
dividend as it is. -/
def floatMod? (x y : Float) : Option Float :=
  if x.isNaN || y.isNaN then some (x + y)
  else if x.isInf || y == 0 then none
  else if y.isInf then some x
  else some (Number.remainder x y)

/-- Remainder of two numbers with the sign of the dividend. -/
def mod? : Num → Num → Option Num
  | int m, int n => if n = 0 then none else some (int (m.tmod n))
  | a, b => asFloats floatMod? a b

/-- Whether a binary64 value is an odd integer. -/
def isOddIntegral (x : Float) : Bool :=
  match Number.intOfFloat? x with
  | some n => n % 2 == 1
  | none => false

/-- Power of binary64 values.  Zero has no negative power, a negative finite
base has only integral powers, and finite operands whose power is out of range
have none. -/
def floatPow? (x y : Float) : Option Float :=
  if y == 0 then some 1
  else if x.isNaN then some x
  else if y.isNaN then some (if x == 1 then 1 else y)
  else
    let odd := isOddIntegral y
    if x.isInf then
      if 0 < y then some (if odd then x else x.abs)
      else some (if odd && x < 0 then -0.0 else 0.0)
    else if x == 0 then
      if y < 0 then none else some (if odd then x else 0)
    else if x < 0 && (Number.intOfFloat? y).isNone then none
    else
      let magnitude := if x.abs == 1 then 1 else x.abs.pow y
      if magnitude.isInf then none
      else some (if x < 0 && odd then -magnitude else magnitude)

/-- Power of two numbers.  A negative power of an integer is computed as a
binary64 value. -/
def pow? : Num → Num → Option Num
  | int m, int n =>
    if 0 ≤ n then some (int (m.pow n.toNat))
    else
      match Number.floatOfInt? m, Number.floatOfInt? n with
      | some x, some y => (floatPow? x y).map settle
      | _, _ => none
  | a, b => asFloats floatPow? a b

/-- The result of an operator on two numbers, or nothing when the operation is
to stay as it is. -/
def fold (op : Op) (a b : Num) : Option Constant :=
  match op with
  | .add => (add? a b).map .number
  | .sub => (sub? a b).map .number
  | .mul => (mul? a b).map .number
  | .div => (div? a b).map .number
  | .mod => (mod? a b).map .number
  | .pow => if b.foldableExponent then (pow? a b).map .number else none
  | .lt => some (.truth (a.compare? b == some .lt))
  | .le => some (.truth (a.compare? b == some .lt || a.compare? b == some .eq))
  | .eq => some (.truth (a.compare? b == some .eq))
  | .ne => some (.truth (a.compare? b != some .eq))
  | .ge => some (.truth (a.compare? b == some .gt || a.compare? b == some .eq))
  | .gt => some (.truth (a.compare? b == some .gt))
  | _ => none

end Num

end Squishc
