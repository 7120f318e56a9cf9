import Mathlib
import Squishc.Proofs.ExactValues
import Squishc.Proofs.NumberText
import Squishc.Proofs.SpelledTokens

/-!
# Number literals

The text of a number that is not negative is a numeral, or the name of a value that no
numeral stands for.  The text of a negative number is a minus sign and the text of its
opposite.  Negative means that the sign is set, so it includes the negative zero.

Main results:

- Theorem `Number.isUnsigned_layout`: a layout of digits is a numeral.
- Theorem `Number.ofFloat_neg`: turning a value turns its sign and nothing else.
- Theorem `Num.literal_of_isNegative`: a negative number is written with a minus sign.
- Theorem `Num.literal_of_nonneg`: what the text of another number can be.
-/

namespace Squishc

namespace Number

open Scan (IsDigits IsFraction IsExponent)

/-! ## Numerals -/

/-- The digits in front of a point.  Only a zero that stands alone begins them. -/
inductive IsWhole : List Char → Prop
  | zero : IsWhole ['0']
  | digits {c : Char} {rest : List Char} (hzero : c ≠ '0') (hdigits : IsDigits (c :: rest)) :
    IsWhole (c :: rest)

/-- A numeral: digits, a fraction and an exponent, of which the last two may be missing. -/
inductive IsUnsigned : List Char → Prop
  | mk {whole places power : List Char} (hwhole : IsWhole whole) (hplaces : IsFraction places)
    (hpower : IsExponent power) : IsUnsigned (whole ++ places ++ power)

theorem isDigits_toDigits (n : Nat) : IsDigits (Nat.toDigits 10 n) := by
  refine ⟨?_, fun c hc => Nat.isDigit_of_mem_toDigits (by norm_num) (by norm_num) hc⟩
  rw [Nat.toDigits_eq_if (by norm_num)]
  split <;> simp

theorem head?_toDigits {n : Nat} (hn : 0 < n) : (Nat.toDigits 10 n).head? ≠ some '0' := by
  induction n using Nat.strong_induction_on with
  | _ n ih =>
    rcases Nat.lt_or_ge n 10 with hlt | hge
    · rw [Nat.toDigits_of_lt_base hlt]
      interval_cases n <;> simp
    · have hne := (isDigits_toDigits (n / 10)).1
      rw [Nat.toDigits_of_base_le (by norm_num) hge, List.head?_append_of_ne_nil _ hne]
      exact ih (n / 10) (by omega) (by omega)

theorem isWhole_of_head? {digits : List Char} (h : IsDigits digits)
    (hhead : digits.head? ≠ some '0') : IsWhole digits := by
  cases digits with
  | nil => exact absurd rfl h.1
  | cons c rest => exact .digits (fun hc => hhead (congrArg some hc)) h

theorem isWhole_toDigits (n : Nat) : IsWhole (Nat.toDigits 10 n) := by
  rcases Nat.eq_zero_or_pos n with rfl | hpos
  · exact .zero
  · exact isWhole_of_head? (isDigits_toDigits n) (head?_toDigits hpos)

theorem IsWhole.isUnsigned {digits : List Char} (h : IsWhole digits) : IsUnsigned digits := by
  simpa using IsUnsigned.mk h .absent .absent

theorem IsUnsigned.exists_digit {text : List Char} (h : IsUnsigned text) :
    ∃ d ds, text = d :: ds ∧ d.isDigit = true := by
  obtain ⟨hwhole, -, -⟩ := h
  cases hwhole with
  | zero => exact ⟨'0', _, rfl, rfl⟩
  | digits _ hdigits => exact ⟨_, _, rfl, hdigits.2 _ List.mem_cons_self⟩

/-- A layout of digits is a numeral if the first digit is not zero. -/
theorem isUnsigned_layout {digits : List Char} (h : IsDigits digits)
    (hhead : digits.head? ≠ some '0') (order : Int) :
    IsUnsigned (Layout.standard.write digits order) := by
  obtain ⟨c, rest, rfl⟩ := List.exists_cons_of_ne_nil h.1
  have hc : c ≠ '0' := fun hc => hhead (congrArg some hc)
  have hall := h.2
  unfold Layout.write
  split
  · split_ifs with horder hlength
    · -- all digits are behind the point
      have hplaces : IsDigits (List.replicate (-order).toNat '0' ++ c :: rest) :=
        ⟨by simp, isDigit_append (isDigit_zeros _) hall⟩
      simpa using IsUnsigned.mk .zero (.present hplaces) .absent
    · -- all digits are in front of it
      have hwhole :
          IsDigits (c :: (rest ++ List.replicate (order.toNat - (c :: rest).length) '0')) :=
        ⟨by simp, isDigit_append hall (isDigit_zeros _)⟩
      have hplaces : IsDigits ['0'] := ⟨by simp, isDigit_zeros 1⟩
      simpa using IsUnsigned.mk (.digits hc hwhole) (.present hplaces) .absent
    · obtain ⟨n, hn⟩ : ∃ n, order.toNat = n + 1 := ⟨order.toNat - 1, by omega⟩
      rw [hn, List.length_cons] at hlength
      rw [List.forall_mem_cons] at hall
      have hwhole : IsDigits (c :: rest.take n) :=
        ⟨by simp, List.forall_mem_cons.mpr ⟨hall.1, fun d hd => hall.2 d (List.mem_of_mem_take hd)⟩⟩
      have hplaces : IsDigits (rest.drop n) := by
        refine ⟨fun hnil => ?_, fun d hd => hall.2 d (List.mem_of_mem_drop hd)⟩
        rw [List.drop_eq_nil_iff] at hnil
        omega
      simpa [hn] using IsUnsigned.mk (.digits hc hwhole) (.present hplaces) .absent
  · generalize order - 1 = exponent
    have hpower : IsExponent ('e' :: [if exponent < 0 then '-' else '+'] ++
        (List.replicate (Layout.standard.exponentWidth -
          (Nat.toDigits 10 exponent.natAbs).length) '0' ++ Nat.toDigits 10 exponent.natAbs)) := by
      refine .present .lower ?_ ⟨?_, isDigit_append (isDigit_zeros _) (isDigits_toDigits _).2⟩
      · split
        · exact .minus
        · exact .plus
      · simp [(isDigits_toDigits exponent.natAbs).1]
    have hfirst : IsDigits [c] := ⟨by simp, by simpa using hall c List.mem_cons_self⟩
    cases rest with
    | nil => simpa using IsUnsigned.mk (.digits hc hfirst) .absent hpower
    | cons second rest =>
      have hplaces : IsDigits (second :: rest) :=
        ⟨by simp, fun d hd => hall d (List.mem_cons_of_mem c hd)⟩
      simpa using IsUnsigned.mk (.digits hc hfirst) (.present hplaces) hpower

theorem isUnsigned_magnitudeText {m : Nat} {q : Int} (h : IsFinite m q) :
    IsUnsigned (magnitudeText m q) := by
  rcases h with ⟨rfl, rfl⟩ | h
  · have hplaces : IsDigits ['0'] := ⟨by simp, isDigit_zeros 1⟩
    exact IsUnsigned.mk .zero (.present hplaces) .absent
  · rw [magnitudeText, if_neg h.pos.ne']
    have hpos : 0 < (shortest m q).coefficient := coefficient_shortest_pos h
    obtain ⟨hdigits, hne, -⟩ := dropTrailingZeros_toDigits hpos
    refine isUnsigned_layout ⟨hne, hdigits⟩ ?_ _
    obtain ⟨n, hn⟩ := dropTrailingZeros_append (Nat.toDigits 10 (shortest m q).coefficient)
    have hhead := head?_toDigits hpos
    rwa [hn, List.head?_append_of_ne_nil _ hne] at hhead

/-! ## Turning a sign -/

section

open Float.Model Float.Model.UnpackedFloat

variable {x : Float}

theorem toNat_unpackExponent (x : Float) :
    (@unpackExponent Format.binary64 x.toModel.toBits.toBitVec).toNat = biased x := by
  simp [unpackExponent, Nat.shiftRight_eq_div_pow, biased, Float.toBits]

theorem toNat_unpackMantissa (x : Float) :
    (@unpackMantissa Format.binary64 x.toModel.toBits.toBitVec).toNat = fraction x := by
  simp [unpackMantissa, fraction, Float.toBits]

/-- The bits of a value with its sign turned. -/
theorem toBits_neg (h : x.isNaN = false) :
    (-x).toModel.toBits.toBitVec = packComponents Format.binary64
      (-Sign.ofBitVec (@unpackSign Format.binary64 x.toModel.toBits.toBitVec))
      (@unpackExponent Format.binary64 x.toModel.toBits.toBitVec)
      (@unpackMantissa Format.binary64 x.toModel.toBits.toBitVec) := by
  change UnpackedFloat.pack Format.binary64
    (UnpackedFloat.unpack Format.binary64 x.toModel.toBits.toBitVec).neg = _
  rw [neg_unpack, pack_unpack, if_neg]
  simp only [isNaNBits, unpackExponent_packComponents, unpackMantissa_packComponents,
    decide_eq_true_eq]
  rw [unpackExponent_eq_iff]
  rintro ⟨htop, hmantissa⟩
  rw [Ne, unpackMantissa_eq_iff] at hmantissa
  simp [Float.isNaN, Float.Model.isNaN, unpack_of_top htop, hmantissa, UnpackedFloat.isNaN] at h

theorem biased_neg (h : x.isNaN = false) : biased (-x) = biased x := by
  rw [← toNat_unpackExponent, ← toNat_unpackExponent, toBits_neg h, unpackExponent_packComponents]

theorem fraction_neg (h : x.isNaN = false) : fraction (-x) = fraction x := by
  rw [← toNat_unpackMantissa, ← toNat_unpackMantissa, toBits_neg h, unpackMantissa_packComponents]

theorem sign_neg (h : x.isNaN = false) : 2 ^ 63 ≤ (-x).toBits.toNat ↔ x.toBits.toNat < 2 ^ 63 := by
  rw [← not_lt, ← unpackSign_eq_iff, ← unpackSign_eq_iff, toBits_neg h, unpackSign_packComponents,
    Sign.ofBitVec]
  split <;> rename_i hsign <;> simp [hsign] <;> decide

theorem isNaN_neg (x : Float) : (-x).isNaN = x.isNaN := by
  simp only [Float.isNaN, Float.Model.isNaN, unpack_neg]
  cases x.toModel.unpack <;> rfl

theorem isInf_neg (x : Float) : (-x).isInf = x.isInf := by
  simp only [Float.isInf, Float.Model.isInf, unpack_neg]
  cases x.toModel.unpack <;> rfl

theorem negative_eq (x : Float) :
    (Scaled.ofFloat x).negative = decide (2 ^ 63 ≤ x.toBits.toNat) := by
  rw [ofFloat_eq]
  split <;> rfl

/-- Turning a value turns its sign and nothing else. -/
theorem ofFloat_neg (h : x.isNaN = false) :
    Scaled.ofFloat (-x) =
      { Scaled.ofFloat x with negative := !(Scaled.ofFloat x).negative } := by
  have hsign : decide (2 ^ 63 ≤ (-x).toBits.toNat) = !decide (2 ^ 63 ≤ x.toBits.toNat) := by
    rw [← decide_not, decide_eq_decide, Nat.not_le]
    exact sign_neg h
  rw [ofFloat_eq, ofFloat_eq, biased_neg h, fraction_neg h, hsign]
  split <;> rfl

end

end Number

/-! ## Signs in literals -/

namespace Num

open Number

/-- Whether a number has a negative sign.  Zero may have one; a value that is no number has
none. -/
def isNegative : Num → Bool
  | int n => decide (n < 0)
  | float x => !x.isNaN && (Scaled.ofFloat x).negative

/-- The name of a value that has no numeral, without its sign. -/
def named? : Num → Option String
  | int _ => none
  | float x => if x.isNaN then some "NaN" else if x.isInf then some "Infinity" else none

theorem literal_of_isNegative {v : Num} (h : v.isNegative = true) :
    v.literal.toList = '-' :: v.neg.literal.toList := by
  cases v with
  | int n =>
    have hneg : n < 0 := of_decide_eq_true h
    have hint : ∀ k : Int, (int k).literal = (int k).text := fun _ => rfl
    rw [neg, hint, hint, toList_text_int, toList_text_int, if_neg (by omega), if_pos (by omega)]
  | float x =>
    simp only [isNegative, Bool.and_eq_true, Bool.not_eq_true'] at h
    obtain ⟨hnan, hsign⟩ := h
    rw [neg]
    simp only [literal, isNaN_neg, isInf_neg, hnan, Bool.false_eq_true, if_false]
    split
    · next hinf =>
      have hinf' : (-x).isInf = true := by rw [isInf_neg, hinf]
      rw [negative_eq, decide_eq_true_eq] at hsign
      rw [if_pos ((bits_of_isInf hinf).1.mpr hsign), if_neg]
      · rfl
      · rw [(bits_of_isInf hinf').1, sign_neg hnan]
        omega
    · rw [finiteText_eq, finiteText_eq, ofFloat_neg hnan, hsign]
      simp

theorem isNegative_neg {v : Num} (h : v.isNegative = true) : v.neg.isNegative = false := by
  cases v with
  | int n =>
    have hneg : n < 0 := of_decide_eq_true h
    simp only [neg, isNegative, decide_eq_false_iff_not]
    omega
  | float x =>
    simp only [isNegative, Bool.and_eq_true, Bool.not_eq_true'] at h
    simp [neg, isNegative, ofFloat_neg h.1, h.2]

/-- A number without a negative sign is written by its name or as a numeral. -/
theorem literal_of_nonneg {v : Num} (h : v.isNegative = false) :
    match v.named? with
    | some word => v.literal = word ∧ word ∈ ["NaN", "Infinity"]
    | none => IsUnsigned v.literal.toList := by
  cases v with
  | int n =>
    have hpos : ¬ n < 0 := of_decide_eq_false h
    have hint : (int n).literal = (int n).text := rfl
    simp only [named?]
    rw [hint, toList_text_int, if_pos (by omega)]
    exact (isWhole_toDigits _).isUnsigned
  | float x =>
    rcases hnan : x.isNaN with _ | _
    · simp only [isNegative, hnan, Bool.not_false, Bool.true_and] at h
      rcases hinf : x.isInf with _ | _
      · simp only [named?, literal, hnan, hinf, Bool.false_eq_true, if_false]
        rw [finiteText_eq, h, String.toList_ofList]
        exact isUnsigned_magnitudeText (isFinite_ofFloat (not_top_of_finite hnan hinf))
      · rw [negative_eq, decide_eq_false_iff_not, ← (bits_of_isInf hinf).1] at h
        simp only [named?, literal, hnan, hinf, h, Bool.false_eq_true, if_false, if_true]
        exact ⟨trivial, by simp⟩
    · simp only [named?, literal, hnan, if_true]
      exact ⟨trivial, by simp⟩

end Num

end Squishc
