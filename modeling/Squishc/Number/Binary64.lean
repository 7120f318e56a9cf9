/-!
# Exact arithmetic behind binary64 values

A finite `Float` is a signed integer times a power of two.  This module decodes
a value into that form and rounds an exact quotient of natural numbers to the
nearest value, halves going to the even neighbour.  All of it is arithmetic on
natural numbers, so it can be reasoned about.
-/

namespace Squishc.Number

/-- A power of two. -/
def twoTo (exponent : Nat) : Nat := Nat.pow 2 exponent

/-- A finite value `±mantissa * 2 ^ exponent`. -/
structure Scaled where
  negative : Bool
  mantissa : Nat
  exponent : Int
deriving DecidableEq, Repr, Inhabited

/-- Bit pattern of positive infinity; every smaller pattern is a finite
magnitude. -/
def infinityBits : Nat := 2047 * twoTo 52

/-- Place of the sign in a bit pattern. -/
def signBit : Nat := twoTo 63

/-- The sign, mantissa and exponent of a finite value. -/
def Scaled.ofFloat (x : Float) : Scaled :=
  let bits := x.toBits.toNat
  let fraction := bits % twoTo 52
  let biased : Nat := bits / twoTo 52 % twoTo 11
  if biased = 0 then
    ⟨decide (signBit ≤ bits), fraction, -1074⟩
  else
    ⟨decide (signBit ≤ bits), twoTo 52 + fraction, (biased : Int) - 1075⟩

/-- The magnitude as a quotient of natural numbers, with a power of two below. -/
def Scaled.ratio (s : Scaled) : Nat × Nat :=
  (s.mantissa * twoTo s.exponent.toNat, twoTo (-s.exponent).toNat)

/-- The nearest natural number to a quotient; a half goes to the even one. -/
def roundDiv (num den : Nat) : Nat :=
  let quotient := num / den
  let twice := 2 * (num % den)
  if den < twice || (twice == den && quotient % 2 == 1) then quotient + 1 else quotient

/-- The greatest `e` with `2 ^ e ≤ num / den`, for positive arguments. -/
def binaryOrder (num den : Nat) : Int :=
  let guess : Int := (num.log2 : Int) - (den.log2 : Int)
  if den * twoTo guess.toNat ≤ num * twoTo (-guess).toNat then guess else guess - 1

/-- Bit pattern of the magnitude nearest to `num / den`.  Patterns from
`infinityBits` on mean that the quotient is out of range. -/
def nearestBits (num den : Nat) : Nat :=
  if num = 0 then 0
  else
    let exponent := max (binaryOrder num den - 52) (-1074)
    let mantissa := roundDiv (num * twoTo (-exponent).toNat) (den * twoTo exponent.toNat)
    if mantissa < twoTo 52 then mantissa
    else (exponent + 1075).toNat * twoTo 52 + (mantissa - twoTo 52)

/-- The value with the given sign and magnitude pattern. -/
def ofMagnitude (negative : Bool) (bits : Nat) : Float :=
  Float.ofBits (UInt64.ofNat (if negative then signBit + bits else bits))

/-- The value nearest to `±num / den`, if it is in range. -/
def nearest? (negative : Bool) (num den : Nat) : Option Float :=
  let bits := nearestBits num den
  if bits < infinityBits then some (ofMagnitude negative bits) else none

/-- The value nearest to an integer, if it is in range. -/
def floatOfInt? (n : Int) : Option Float :=
  nearest? (decide (n < 0)) n.natAbs 1

/-- The value nearest to the quotient of two integers, if the divisor is not
zero and the quotient is in range. -/
def quotient? (a b : Int) : Option Float :=
  if b = 0 then none
  else nearest? (decide (a < 0) != decide (b < 0)) a.natAbs b.natAbs

/-- The integer that a value equals, if it equals one. -/
def intOfFloat? (x : Float) : Option Int :=
  if x.isFinite then
    let s := Scaled.ofFloat x
    let (num, den) := s.ratio
    if num % den = 0 then
      let magnitude : Int := (num / den : Nat)
      some (if s.negative then -magnitude else magnitude)
    else none
  else none

/-- The remainder of finite values by a finite divisor other than zero.  It is
exact and has the sign of the dividend. -/
def remainder (x y : Float) : Float :=
  let a := Scaled.ofFloat x
  let b := Scaled.ofFloat y
  let least := min a.exponent b.exponent
  let dividend := a.mantissa * twoTo (a.exponent - least).toNat
  let divisor := b.mantissa * twoTo (b.exponent - least).toNat
  let rest := dividend % divisor
  ofMagnitude a.negative (nearestBits (rest * twoTo least.toNat) (twoTo (-least).toNat))

end Squishc.Number
