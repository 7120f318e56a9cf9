import Mathlib
import Squishc.Number.Basic
import Squishc.Proofs.ShortestDecimal

/-!
# The text of a number

The text of a finite binary64 value is laid out from its shortest decimal, and reading
it gives that decimal back.  So no two values have the same text.  An integer has only
digits and a sign in its text, a finite value also a point or an exponent, and the
values that are not finite are words.

Main results:

- Theorem `read?_write`: a layout reads as the decimal that was laid out.
- Theorem `text_injective`: different numbers have different texts.
- Theorem `mem_text`: which characters occur in the text of a number.
-/

namespace Squishc.Number

/-! ## Digits -/

theorem natOfDigits_eq (digits : List Char) : natOfDigits digits = Nat.ofDigitChars 10 digits 0 :=
  Nat.ofDigitChars_eq_foldl.symm

theorem natOfDigits_append (as bs : List Char) :
    natOfDigits (as ++ bs) = natOfDigits as * 10 ^ bs.length + natOfDigits bs := by
  rw [natOfDigits_eq, natOfDigits_eq, natOfDigits_eq, Nat.ofDigitChars_append,
    Nat.ofDigitChars_eq_ofDigitChars_zero (l := bs), mul_comm]

theorem natOfDigits_zeros (n : Nat) : natOfDigits (List.replicate n '0') = 0 := by
  rw [natOfDigits_eq, Nat.ofDigitChars_replicate_zero, mul_zero]

theorem natOfDigits_zeros_append (n : Nat) (digits : List Char) :
    natOfDigits (List.replicate n '0' ++ digits) = natOfDigits digits := by
  rw [natOfDigits_append, natOfDigits_zeros, zero_mul, zero_add]

theorem natOfDigits_append_zeros (digits : List Char) (n : Nat) :
    natOfDigits (digits ++ List.replicate n '0') = natOfDigits digits * 10 ^ n := by
  rw [natOfDigits_append, natOfDigits_zeros, List.length_replicate, add_zero]

/-- Only zeros are dropped. -/
theorem dropTrailingZeros_append (digits : List Char) :
    ∃ n, digits = dropTrailingZeros digits ++ List.replicate n '0' := by
  have hzeros : ∀ c ∈ digits.reverse.takeWhile (· == '0'), c = '0' := fun c hc => by
    simpa using List.mem_takeWhile_imp hc
  refine ⟨(digits.reverse.takeWhile (· == '0')).length, ?_⟩
  conv_lhs =>
    rw [← List.reverse_reverse digits,
      ← List.takeWhile_append_dropWhile (p := (· == '0')) (l := digits.reverse),
      List.reverse_append, List.eq_replicate_of_mem hzeros, List.reverse_replicate]
  rw [dropTrailingZeros]

theorem mem_of_mem_dropTrailingZeros {digits : List Char} {c : Char}
    (h : c ∈ dropTrailingZeros digits) : c ∈ digits :=
  List.mem_reverse.mp ((List.dropWhile_sublist _).subset (List.mem_reverse.mp h))

/-! ## Reading a layout -/

/-- Digits are followed by something else. -/
def EndsDigits (rest : List Char) : Prop := ∀ c ∈ rest.head?, c.isDigit = false

theorem takeWhile_digits {digits rest : List Char} (h : ∀ c ∈ digits, c.isDigit = true)
    (hrest : EndsDigits rest) : (digits ++ rest).takeWhile Char.isDigit = digits := by
  rw [List.takeWhile_append_of_pos h]
  cases rest with
  | nil => simp
  | cons c rest => rw [List.takeWhile_cons_of_neg (by simp [hrest c rfl]), List.append_nil]

theorem dropWhile_digits {digits rest : List Char} (h : ∀ c ∈ digits, c.isDigit = true)
    (hrest : EndsDigits rest) : (digits ++ rest).dropWhile Char.isDigit = rest := by
  rw [List.dropWhile_append_of_pos h]
  cases rest with
  | nil => rfl
  | cons c rest => rw [List.dropWhile_cons_of_neg (by simp [hrest c rfl])]

/-- Reads digits, a point, more digits and an exponent. -/
theorem read?_point (whole fraction rest : List Char) {e : Int}
    (hwhole : ∀ c ∈ whole, c.isDigit = true) (hne : whole ≠ [])
    (hfraction : ∀ c ∈ fraction, c.isDigit = true) (hrest : EndsDigits rest)
    (he : Decimal.readExponent? rest = some e) :
    Decimal.read? (whole ++ '.' :: (fraction ++ rest)) =
      some ⟨natOfDigits (whole ++ fraction), e - fraction.length⟩ := by
  have hpoint : EndsDigits ('.' :: (fraction ++ rest)) := by simp [EndsDigits]
  simp only [Decimal.read?, takeWhile_digits hwhole hpoint, dropWhile_digits hwhole hpoint,
    takeWhile_digits hfraction hrest, dropWhile_digits hfraction hrest, he]
  rw [if_neg (by simp [hne])]

/-- Reads digits and an exponent. -/
theorem read?_whole {whole rest : List Char} {e : Int} (hwhole : ∀ c ∈ whole, c.isDigit = true)
    (hne : whole ≠ []) (hrest : EndsDigits rest) (hpoint : rest.head? ≠ some '.')
    (he : Decimal.readExponent? rest = some e) :
    Decimal.read? (whole ++ rest) = some ⟨natOfDigits whole, e⟩ := by
  simp only [Decimal.read?, takeWhile_digits hwhole hrest, dropWhile_digits hwhole hrest]
  split
  · simp at hpoint
  · simp [he, hne]

/-- Reads an exponent with a sign. -/
theorem readExponent?_signed {digits : List Char} (h : ∀ c ∈ digits, c.isDigit = true)
    (hne : digits ≠ []) (e : Int) (hvalue : natOfDigits digits = e.natAbs) :
    Decimal.readExponent? ('e' :: (if e < 0 then '-' else '+') :: digits) = some e := by
  have hdigits : (digits.isEmpty || !digits.all Char.isDigit) = false := by
    simpa [hne] using h
  by_cases he : e < 0
  · simp only [Decimal.readExponent?, if_pos he, hdigits, hvalue, decide_true, Bool.true_or,
      if_true, Bool.false_eq_true, if_false, Option.some.injEq]
    omega
  · simp only [Decimal.readExponent?, if_neg he, hdigits, hvalue, decide_true, Bool.true_or,
      if_true, Bool.false_eq_true, if_false, Option.some.injEq]
    omega

theorem isDigit_zeros (n : Nat) : ∀ c ∈ List.replicate n '0', c.isDigit = true := by
  intro c hc
  rw [List.eq_of_mem_replicate hc]
  rfl

theorem isDigit_append {as bs : List Char} (h : ∀ c ∈ as, c.isDigit = true)
    (h' : ∀ c ∈ bs, c.isDigit = true) : ∀ c ∈ as ++ bs, c.isDigit = true := by
  intro c hc
  exact (List.mem_append.mp hc).elim (h c) (h' c)

theorem value_mk (c : Nat) (e : Int) : (⟨c, e⟩ : Decimal).value = c * 10 ^ e := rfl

/-- A decimal keeps its value when zeros are put behind its digits. -/
theorem value_shift (c n : Nat) (e : Int) :
    (⟨c * 10 ^ n, e⟩ : Decimal).value = c * 10 ^ (n + e) := by
  rw [value_mk, zpow_add₀ (by norm_num), zpow_natCast, ← mul_assoc]
  push_cast
  rfl

/-- A layout reads as the decimal that was laid out. -/
theorem read?_write {digits : List Char} (h : ∀ c ∈ digits, c.isDigit = true) (hne : digits ≠ [])
    (order : Int) : ∃ d, Decimal.read? (Layout.standard.write digits order) = some d ∧
      d.value = natOfDigits digits * 10 ^ (order - digits.length) := by
  have hpos : 0 < digits.length := List.length_pos_iff.mpr hne
  unfold Layout.write
  split
  · split
    · next hrange horder =>
      have hread := read?_point (List.replicate 1 '0')
        (List.replicate (-order).toNat '0' ++ digits) [] (isDigit_zeros 1) (by simp)
        (isDigit_append (isDigit_zeros _) h) (by simp [EndsDigits]) rfl
      rw [List.append_nil] at hread
      refine ⟨_, hread, ?_⟩
      rw [natOfDigits_zeros_append, natOfDigits_zeros_append, value_mk, List.length_append,
        List.length_replicate]
      congr 2
      omega
    · split
      · next hrange horder hlength =>
        have hread := read?_point (digits ++ List.replicate (order.toNat - digits.length) '0')
          (List.replicate 1 '0') [] (isDigit_append h (isDigit_zeros _)) (by simp [hne])
          (isDigit_zeros 1) (by simp [EndsDigits]) rfl
        refine ⟨_, hread, ?_⟩
        rw [List.append_assoc, ← List.replicate_add, natOfDigits_append_zeros, value_shift]
        congr 2
        simp only [List.length_replicate]
        omega
      · next hrange horder hlength =>
        have hread := read?_point (digits.take order.toNat) (digits.drop order.toNat) []
          (fun c hc => h c (List.mem_of_mem_take hc)) (by simp [hne]; omega)
          (fun c hc => h c (List.mem_of_mem_drop hc)) (by simp [EndsDigits]) rfl
        rw [List.append_nil] at hread
        refine ⟨_, hread, ?_⟩
        rw [List.take_append_drop, value_mk, List.length_drop]
        congr 2
        omega
  · -- With an exponent: one digit stands before the point, which is only written if
    -- there are more.
    have hexponent := readExponent?_signed
      (isDigit_append (isDigit_zeros (2 - (Nat.toDigits 10 (order - 1).natAbs).length))
        fun c hc => Nat.isDigit_of_mem_toDigits (b := 10) (by norm_num) (by norm_num) hc)
      (by simp [Nat.toDigits_ne_nil]) (order - 1)
      (by rw [natOfDigits_zeros_append, natOfDigits_eq, Nat.ofDigitChars_ten_toDigits])
    match digits, h, hne with
    | [first], h, _ =>
      refine ⟨_, read?_whole h (by simp) (by simp [EndsDigits]) (by simp) hexponent, ?_⟩
      rfl
    | first :: second :: rest, h, _ =>
      have hread := read?_point [first] (second :: rest) _ (fun c hc => h c (by simp_all))
        (by simp) (fun c hc => h c (List.mem_cons_of_mem _ hc)) (by simp [EndsDigits]) hexponent
      refine ⟨_, hread, ?_⟩
      rw [value_mk, List.singleton_append]
      congr 2
      simp only [List.length_cons]
      omega

/-! ## The text of a magnitude -/

section

variable {m m' : Nat} {q q' : Int}

/-- The text of a magnitude, without its sign. -/
def magnitudeText (m : Nat) (q : Int) : List Char :=
  if m = 0 then ['0', '.', '0']
  else
    let digits := Nat.toDigits 10 (shortest m q).coefficient
    Layout.standard.write (dropTrailingZeros digits) (digits.length + (shortest m q).exponent)

theorem finiteText_eq (x : Float) :
    finiteText x =
      String.ofList (if (Scaled.ofFloat x).negative then
        '-' :: magnitudeText (Scaled.ofFloat x).mantissa (Scaled.ofFloat x).exponent
      else magnitudeText (Scaled.ofFloat x).mantissa (Scaled.ofFloat x).exponent) := rfl

theorem Reads.pos {x : ℚ} (h : Reads m q x) (hm : 0 < m) : 0 < x := by
  have hunit : (0 : ℚ) < 2 ^ (q - 2) := by positivity
  have hm' : (1 : ℚ) ≤ m := by exact_mod_cast hm
  have hlow := mul_pos (show (0 : ℚ) < 4 * m - 2 by linarith) hunit
  exact hlow.trans_le ((le_lowEnd m q).trans h.low_le)

/-- The digits that are laid out for a positive number, and their value. -/
theorem dropTrailingZeros_toDigits {c : Nat} (hc : 0 < c) :
    (∀ d ∈ dropTrailingZeros (Nat.toDigits 10 c), d.isDigit = true) ∧
      dropTrailingZeros (Nat.toDigits 10 c) ≠ [] ∧
      ∀ e : Int, (c : ℚ) * 10 ^ e = natOfDigits (dropTrailingZeros (Nat.toDigits 10 c)) *
        10 ^ ((Nat.toDigits 10 c).length + e - (dropTrailingZeros (Nat.toDigits 10 c)).length) := by
  have hvalue : natOfDigits (Nat.toDigits 10 c) = c := by
    rw [natOfDigits_eq, Nat.ofDigitChars_ten_toDigits]
  have hdigits : ∀ d ∈ Nat.toDigits 10 c, d.isDigit = true := fun d hd =>
    Nat.isDigit_of_mem_toDigits (by norm_num) (by norm_num) hd
  obtain ⟨n, hn⟩ := dropTrailingZeros_append (Nat.toDigits 10 c)
  generalize dropTrailingZeros (Nat.toDigits 10 c) = kept at hn ⊢
  rw [hn] at hvalue hdigits ⊢
  rw [natOfDigits_append_zeros] at hvalue
  refine ⟨fun d hd => hdigits d (List.mem_append_left _ hd), ?_, fun e => ?_⟩
  · rintro rfl
    simp [natOfDigits] at hvalue
    omega
  · rw [← hvalue, ← value_mk, value_shift, List.length_append, List.length_replicate]
    congr 2
    push_cast
    ring

theorem coefficient_shortest_pos (h : Normal m q) : 0 < (shortest m q).coefficient := by
  rw [Nat.pos_iff_ne_zero]
  intro hzero
  have hvalue := (reads_shortest h).pos h.pos
  simp [Decimal.value, hzero] at hvalue

/-- The text of a positive magnitude reads as a decimal that reads back. -/
theorem read?_magnitudeText (h : Normal m q) :
    ∃ d, Decimal.read? (magnitudeText m q) = some d ∧ Reads m q d.value := by
  have hreads := reads_shortest h
  have hpos := coefficient_shortest_pos h
  obtain ⟨hdigits, hne, hvalue⟩ := dropTrailingZeros_toDigits hpos
  obtain ⟨d, hd, hdvalue⟩ := read?_write hdigits hne
    ((Nat.toDigits 10 (shortest m q).coefficient).length + (shortest m q).exponent)
  rw [magnitudeText, if_neg h.pos.ne']
  refine ⟨d, hd, ?_⟩
  rw [hdvalue, ← hvalue]
  exact hreads

/-- The mantissa and the exponent of a finite value. -/
def IsFinite (m : Nat) (q : Int) : Prop := m = 0 ∧ q = -1074 ∨ Normal m q

theorem magnitudeText_ne_zero (h : Normal m q) : magnitudeText m q ≠ magnitudeText 0 (-1074) := by
  intro heq
  obtain ⟨d, hd, hreads⟩ := read?_magnitudeText h
  have hzero : Decimal.read? (magnitudeText 0 (-1074)) = some ⟨0, -1⟩ := rfl
  rw [heq, hzero, Option.some.injEq] at hd
  have hpos := hreads.pos h.pos
  rw [← hd, value_mk, Nat.cast_zero, zero_mul] at hpos
  exact lt_irrefl _ hpos

theorem exists_read?_magnitudeText (h : IsFinite m q) :
    ∃ d, Decimal.read? (magnitudeText m q) = some d := by
  rcases h with ⟨rfl, rfl⟩ | h
  · exact ⟨⟨0, -1⟩, rfl⟩
  · obtain ⟨d, hd, -⟩ := read?_magnitudeText h
    exact ⟨d, hd⟩

/-- Different magnitudes have different texts. -/
theorem magnitudeText_injective (h : IsFinite m q) (h' : IsFinite m' q')
    (heq : magnitudeText m q = magnitudeText m' q') : m = m' ∧ q = q' := by
  rcases h with ⟨rfl, rfl⟩ | h
  · rcases h' with ⟨rfl, rfl⟩ | h'
    · exact ⟨rfl, rfl⟩
    · exact absurd heq.symm (magnitudeText_ne_zero h')
  · rcases h' with ⟨rfl, rfl⟩ | h'
    · exact absurd heq (magnitudeText_ne_zero h)
    · obtain ⟨d, hd, hreads⟩ := read?_magnitudeText h
      obtain ⟨d', hd', hreads'⟩ := read?_magnitudeText h'
      rw [heq, hd', Option.some.injEq] at hd
      subst hd
      exact reads_unique h h' hreads hreads'

end

/-! ## Bits -/

section

open Float.Model Float.Model.UnpackedFloat

variable {x y : Float}

theorem eq_of_toBits (h : x.toBits.toNat = y.toBits.toNat) : x = y :=
  Float.toBits_inj.mp (UInt64.toNat_inj.mp h)

/-- The exponent of a value as its bits have it. -/
def biased (x : Float) : Nat := x.toBits.toNat / 2 ^ 52 % 2 ^ 11

/-- The fraction of a value as its bits have it. -/
def fraction (x : Float) : Nat := x.toBits.toNat % 2 ^ 52

theorem unpackExponent_eq_iff (x : Float) :
    @unpackExponent Format.binary64 x.toModel.toBits.toBitVec = -1#11 ↔ biased x = 2047 := by
  rw [← BitVec.toNat_inj]
  simp [unpackExponent, Nat.shiftRight_eq_div_pow, biased, Float.toBits]

theorem unpackMantissa_eq_iff (x : Float) :
    @unpackMantissa Format.binary64 x.toModel.toBits.toBitVec = 0#52 ↔ fraction x = 0 := by
  rw [← BitVec.toNat_inj]
  simp [unpackMantissa, fraction, Float.toBits]

theorem unpackSign_eq_iff (x : Float) :
    @unpackSign Format.binary64 x.toModel.toBits.toBitVec = 0#1 ↔ x.toBits.toNat < 2 ^ 63 := by
  have hlt := x.toModel.toBits.toNat_lt
  have hsign : (@unpackSign Format.binary64 x.toModel.toBits.toBitVec).toNat =
      x.toModel.toBits.toNat / 2 ^ 63 % 2 := by
    simp [unpackSign, Nat.shiftRight_eq_div_pow]
  rw [← BitVec.toNat_inj, hsign, Float.toBits, BitVec.toNat_ofNat]
  omega

/-- The greatest exponent stands for values that are not finite. -/
theorem unpack_of_top (h : biased x = 2047) :
    x.toModel.unpack =
      if fraction x = 0 then
        .infinity (if x.toBits.toNat < 2 ^ 63 then .positive else .negative)
      else .notANumber := by
  simp only [← unpackMantissa_eq_iff, ← unpackSign_eq_iff]
  rw [← unpackExponent_eq_iff] at h
  simp only [Float.Model.unpack, UnpackedFloat.unpack, h, if_true, Sign.ofBitVec]

theorem finite_of_not_top (h : biased x ≠ 2047) : x.isNaN = false ∧ x.isInf = false := by
  rw [Ne, ← unpackExponent_eq_iff] at h
  simp only [Float.isNaN, Float.isInf, Float.Model.isNaN, Float.Model.isInf, Float.Model.unpack,
    UnpackedFloat.unpack, if_neg h]
  split_ifs <;> exact ⟨rfl, rfl⟩

theorem not_top_of_finite (hnan : x.isNaN = false) (hinf : x.isInf = false) : biased x ≠ 2047 := by
  intro h
  simp only [Float.isNaN, Float.isInf, Float.Model.isNaN, Float.Model.isInf, unpack_of_top h]
    at hnan hinf
  split at hnan
  · next hzero => simp [UnpackedFloat.isInf, hzero] at hinf
  · simp [UnpackedFloat.isNaN] at hnan

/-- There is only one value that is no number. -/
theorem eq_of_isNaN (hx : x.isNaN = true) (hy : y.isNaN = true) : x = y := by
  rw [Float.isNaN_eq_decide_eq_nan, decide_eq_true_eq] at hx hy
  rw [hx, hy]

/-- An infinite value is told by its sign. -/
theorem bits_of_isInf (h : x.isInf = true) :
    (x < 0 ↔ 2 ^ 63 ≤ x.toBits.toNat) ∧ x.toBits.toNat % 2 ^ 63 = 2047 * 2 ^ 52 := by
  have htop : biased x = 2047 := by
    by_contra hne
    simp [(finite_of_not_top hne).2] at h
  have hfraction : fraction x = 0 := by
    by_contra hne
    simp [Float.isInf, Float.Model.isInf, unpack_of_top htop, hne, UnpackedFloat.isInf] at h
  constructor
  · have hunpack := unpack_of_top htop
    rw [if_pos hfraction] at hunpack
    have hzero : (0 : Float).toModel.unpack = .zero .positive := rfl
    have hless : x < 0 ↔ x.toModel.unpack.lt (0 : Float).toModel.unpack = true := by
      show Float.lt x 0 = true ↔ _
      rw [Float.lt, decide_eq_true_eq]
      rfl
    rw [hless, hunpack, hzero, ← not_lt]
    split <;> simp_all [UnpackedFloat.lt, UnpackedFloat.compare]
  · simp only [biased, fraction] at htop hfraction
    omega

theorem eq_of_isInf (hx : x.isInf = true) (hy : y.isInf = true) (hsign : x < 0 ↔ y < 0) :
    x = y := by
  obtain ⟨hxsign, hxbits⟩ := bits_of_isInf hx
  obtain ⟨hysign, hybits⟩ := bits_of_isInf hy
  rw [hxsign, hysign] at hsign
  have hxlt := x.toBits.toNat_lt
  have hylt := y.toBits.toNat_lt
  refine eq_of_toBits ?_
  omega

end

/-! ## Finite values -/

section

variable {x y : Float}

theorem ofFloat_eq (x : Float) :
    Scaled.ofFloat x =
      if biased x = 0 then ⟨decide (2 ^ 63 ≤ x.toBits.toNat), fraction x, -1074⟩
      else ⟨decide (2 ^ 63 ≤ x.toBits.toNat), 2 ^ 52 + fraction x, (biased x : Int) - 1075⟩ := rfl

theorem isFinite_ofFloat (h : biased x ≠ 2047) :
    IsFinite (Scaled.ofFloat x).mantissa (Scaled.ofFloat x).exponent := by
  have hbiased : biased x < 2048 := Nat.mod_lt _ (by norm_num)
  have hfraction : fraction x < 2 ^ 52 := Nat.mod_lt _ (by norm_num)
  rw [ofFloat_eq]
  split
  · next hzero =>
    rcases Nat.eq_zero_or_pos (fraction x) with hnone | hsome
    · exact .inl ⟨hnone, rfl⟩
    · exact .inr ⟨hsome, by simp only; omega, le_rfl, by norm_num, fun h => absurd h (lt_irrefl _)⟩
  · next hpos =>
    exact .inr ⟨by simp only; omega, by simp only; omega, by simp only; omega, by simp only; omega,
      fun _ => by simp only; omega⟩

/-- A value is told by its sign, mantissa and exponent. -/
theorem ofFloat_injective (h : Scaled.ofFloat x = Scaled.ofFloat y) : x = y := by
  have hxlt := x.toBits.toNat_lt
  have hylt := y.toBits.toNat_lt
  refine eq_of_toBits ?_
  rw [ofFloat_eq, ofFloat_eq] at h
  split at h <;> split at h <;>
    simp only [Scaled.mk.injEq, decide_eq_decide, biased, fraction] at * <;> omega

end

/-! ## Characters -/

/-- The characters of the text of a finite number. -/
def isNumeral (c : Char) : Bool := c.isDigit || c ∈ ['-', '+', '.', 'e']

theorem isNumeral_of_isDigit {digits : List Char} (h : ∀ c ∈ digits, c.isDigit = true) :
    ∀ c ∈ digits, isNumeral c = true := fun c hc => by simp [isNumeral, h c hc]

theorem isNumeral_write {digits : List Char} (h : ∀ c ∈ digits, c.isDigit = true) (order : Int) :
    ∀ c ∈ Layout.standard.write digits order, isNumeral c = true := by
  have hdigits := isNumeral_of_isDigit h
  have hzeros : ∀ n, ∀ c ∈ List.replicate n '0', isNumeral c = true :=
    fun n => isNumeral_of_isDigit (isDigit_zeros n)
  have hexponent : ∀ n, ∀ c ∈ Nat.toDigits 10 n, isNumeral c = true := fun n =>
    isNumeral_of_isDigit fun c hc => Nat.isDigit_of_mem_toDigits (by norm_num) (by norm_num) hc
  have hpoint : isNumeral '.' = true := rfl
  unfold Layout.write
  split
  · split_ifs
    · simp only [List.cons_append, List.forall_mem_cons, List.forall_mem_append]
      exact ⟨rfl, hpoint, hzeros _, hdigits⟩
    · simp only [List.forall_mem_cons, List.forall_mem_append]
      exact ⟨⟨hdigits, hzeros _⟩, hpoint, rfl, by simp⟩
    · simp only [List.forall_mem_cons, List.forall_mem_append]
      exact ⟨fun c hc => hdigits c (List.mem_of_mem_take hc), hpoint,
        fun c hc => hdigits c (List.mem_of_mem_drop hc)⟩
  · simp only [List.forall_mem_cons, List.forall_mem_append]
    refine ⟨?_, rfl, by split <;> rfl, hzeros _, hexponent _⟩
    split
    · simp only [List.forall_mem_cons] at hdigits ⊢
      exact ⟨hdigits.1, hpoint, hdigits.2⟩
    · exact hdigits

theorem point_or_exponent_mem_write (digits : List Char) (order : Int) :
    '.' ∈ Layout.standard.write digits order ∨ 'e' ∈ Layout.standard.write digits order := by
  unfold Layout.write
  split
  · left
    split_ifs <;> simp
  · right
    simp

theorem isNumeral_magnitudeText (m : Nat) (q : Int) :
    ∀ c ∈ magnitudeText m q, isNumeral c = true := by
  rw [magnitudeText]
  split
  · exact List.all_eq_true.mp rfl
  · exact isNumeral_write (fun c hc => Nat.isDigit_of_mem_toDigits (b := 10) (by norm_num)
      (by norm_num) (mem_of_mem_dropTrailingZeros hc)) _

theorem point_or_exponent_mem_magnitudeText (m : Nat) (q : Int) :
    '.' ∈ magnitudeText m q ∨ 'e' ∈ magnitudeText m q := by
  rw [magnitudeText]
  split
  · exact .inl (by decide)
  · exact point_or_exponent_mem_write _ _

theorem isNumeral_finiteText (x : Float) : ∀ c ∈ (finiteText x).toList, isNumeral c = true := by
  rw [finiteText_eq, String.toList_ofList]
  split
  · rw [List.forall_mem_cons]
    exact ⟨rfl, isNumeral_magnitudeText _ _⟩
  · exact isNumeral_magnitudeText _ _

theorem point_or_exponent_mem_finiteText (x : Float) :
    '.' ∈ (finiteText x).toList ∨ 'e' ∈ (finiteText x).toList := by
  rw [finiteText_eq, String.toList_ofList]
  split
  · exact (point_or_exponent_mem_magnitudeText _ _).imp (List.mem_cons_of_mem _)
      (List.mem_cons_of_mem _)
  · exact point_or_exponent_mem_magnitudeText _ _

theorem read?_sign (text : List Char) : Decimal.read? ('-' :: text) = none := by
  simp [Decimal.read?]

/-- Different finite values have different texts. -/
theorem finiteText_injective {x y : Float} (hx : biased x ≠ 2047) (hy : biased y ≠ 2047)
    (h : finiteText x = finiteText y) : x = y := by
  have hfinite := isFinite_ofFloat hx
  have hfinite' := isFinite_ofFloat hy
  obtain ⟨d, hd⟩ := exists_read?_magnitudeText hfinite
  obtain ⟨d', hd'⟩ := exists_read?_magnitudeText hfinite'
  refine ofFloat_injective ?_
  rw [finiteText_eq, finiteText_eq] at h
  replace h := congrArg String.toList h
  rw [String.toList_ofList, String.toList_ofList] at h
  rcases hs : Scaled.ofFloat x with ⟨negative, m, q⟩
  rcases ht : Scaled.ofFloat y with ⟨negative', m', q'⟩
  simp only [hs, ht] at h hfinite hfinite' hd hd'
  -- A magnitude does not begin with a sign, so the signs agree.
  cases negative <;> cases negative' <;> simp only [Bool.false_eq_true, if_true, if_false] at h
  · obtain ⟨rfl, rfl⟩ := magnitudeText_injective hfinite hfinite' h
    rfl
  · rw [h, read?_sign] at hd
    cases hd
  · rw [← h, read?_sign] at hd'
    cases hd'
  · obtain ⟨rfl, rfl⟩ := magnitudeText_injective hfinite hfinite' (List.cons.inj h).2
    rfl

end Squishc.Number

namespace Squishc.Num

open Number

theorem toList_text_int (n : Int) :
    (int n).text.toList =
      if 0 ≤ n then Nat.toDigits 10 n.toNat else '-' :: Nat.toDigits 10 (-n).toNat := by
  have htext : (int n).text = n.repr := rfl
  rw [htext, Int.repr_eq_if]
  split
  · rw [Nat.toList_repr]
  · rw [String.toList_append, Nat.toList_repr]
    rfl

/-- An integer has only digits and a sign in its text. -/
theorem mem_text_int {n : Int} {c : Char} (h : c ∈ (int n).text.toList) :
    c.isDigit = true ∨ c = '-' := by
  have hdigits : ∀ {k : Nat}, c ∈ Nat.toDigits 10 k → c.isDigit = true := fun hk =>
    Nat.isDigit_of_mem_toDigits (by norm_num) (by norm_num) hk
  rw [toList_text_int] at h
  split at h
  · exact .inl (hdigits h)
  · exact (List.mem_cons.mp h).symm.imp hdigits id

theorem text_int_injective {m n : Int} (h : (int m).text = (int n).text) : m = n := by
  have hsign : ∀ {j k : Nat}, Nat.toDigits 10 j ≠ '-' :: Nat.toDigits 10 k := fun {j k} heq => by
    have hminus : '-' ∈ Nat.toDigits 10 j := heq ▸ List.mem_cons_self ..
    exact absurd (Nat.isDigit_of_mem_toDigits (by norm_num) (by norm_num) hminus) (by decide)
  have hdigits : ∀ {j k : Nat}, Nat.toDigits 10 j = Nat.toDigits 10 k → j = k := fun {j k} heq => by
    rw [← Nat.ofDigitChars_ten_toDigits (n := j), heq, Nat.ofDigitChars_ten_toDigits]
  replace h := congrArg String.toList h
  rw [toList_text_int, toList_text_int] at h
  split at h <;> split at h
  · have := hdigits h
    omega
  · exact absurd h hsign
  · exact absurd h.symm hsign
  · have := hdigits (List.cons.inj h).2
    omega

/-- The text of a value that is no number, infinite or finite. -/
theorem text_float (x : Float) :
    (x.isNaN = true ∧ (float x).text = "nan") ∨
      (x.isInf = true ∧ (float x).text = if x < 0 then "-inf" else "inf") ∨
      (biased x ≠ 2047 ∧ (float x).text = finiteText x) := by
  rw [text]
  by_cases hnan : x.isNaN = true
  · exact .inl ⟨hnan, if_pos hnan⟩
  · rw [if_neg hnan]
    by_cases hinf : x.isInf = true
    · exact .inr (.inl ⟨hinf, if_pos hinf⟩)
    · exact .inr (.inr ⟨not_top_of_finite (by simpa using hnan) (by simpa using hinf), if_neg hinf⟩)

/-- The characters of a given text are looked at one by one. -/
theorem forall_mem_of_all {p : Char → Prop} [DecidablePred p] {cs : List Char}
    (h : cs.all (fun c => decide (p c)) = true) : ∀ c ∈ cs, p c :=
  fun c hc => of_decide_eq_true (List.all_eq_true.mp h c hc)

/-- Which characters occur in the text of a number. -/
theorem mem_text {a : Num} {c : Char} (h : c ∈ a.text.toList) :
    isNumeral c = true ∨ c ∈ ['i', 'n', 'f', 'a'] := by
  cases a with
  | int n =>
    rcases mem_text_int h with h | rfl
    · exact .inl (by simp [isNumeral, h])
    · exact .inl rfl
  | float x =>
    rcases text_float x with ⟨-, htext⟩ | ⟨-, htext⟩ | ⟨-, htext⟩
    · rw [htext] at h
      have hword : ∀ c ∈ "nan".toList, isNumeral c = true ∨ c ∈ ['i', 'n', 'f', 'a'] :=
        forall_mem_of_all rfl
      exact hword c h
    · rw [htext] at h
      have hword : ∀ c ∈ "-inf".toList, isNumeral c = true ∨ c ∈ ['i', 'n', 'f', 'a'] :=
        forall_mem_of_all rfl
      split at h
      · exact hword c h
      · exact hword c (List.mem_cons_of_mem '-' h)
    · rw [htext] at h
      exact .inl (isNumeral_finiteText x c h)

/-- The text of a binary64 value has a character that no integer has. -/
theorem exists_mem_text_float (x : Float) :
    ∃ c ∈ (float x).text.toList, ¬ (c.isDigit = true ∨ c = '-') := by
  rcases text_float x with ⟨-, htext⟩ | ⟨-, htext⟩ | ⟨-, htext⟩
  · rw [htext]
    exact ⟨'n', by decide, by decide⟩
  · rw [htext]
    refine ⟨'n', ?_, by decide⟩
    split <;> decide
  · rw [htext]
    rcases point_or_exponent_mem_finiteText x with h | h
    · exact ⟨_, h, by decide⟩
    · exact ⟨_, h, by decide⟩

theorem text_ne_nil (a : Num) : a.text.toList ≠ [] := by
  cases a with
  | int n =>
    rw [toList_text_int]
    split <;> simp [Nat.toDigits_ne_nil]
  | float x =>
    obtain ⟨c, hc, -⟩ := exists_mem_text_float x
    exact List.ne_nil_of_mem hc

theorem text_float_injective {x y : Float} (h : (float x).text = (float y).text) : x = y := by
  have hn : 'n' ∉ (finiteText x).toList := fun hmem => by
    simpa [isNumeral] using isNumeral_finiteText x 'n' hmem
  have hn' : 'n' ∉ (finiteText y).toList := fun hmem => by
    simpa [isNumeral] using isNumeral_finiteText y 'n' hmem
  rcases text_float x with ⟨hx, htx⟩ | ⟨hx, htx⟩ | ⟨hx, htx⟩ <;>
    rcases text_float y with ⟨hy, hty⟩ | ⟨hy, hty⟩ | ⟨hy, hty⟩ <;> rw [htx, hty] at h
  · exact eq_of_isNaN hx hy
  · split at h <;> simp at h
  · exact absurd (h ▸ by decide) hn'
  · split at h <;> simp at h
  · refine eq_of_isInf hx hy ?_
    split at h <;> split at h <;> simp_all
  · refine absurd (h ▸ ?_) hn'
    split <;> decide
  · exact absurd (h ▸ by decide) hn
  · refine absurd (h ▸ ?_) hn
    split <;> decide
  · exact finiteText_injective hx hy h

/-- Different numbers have different texts. -/
theorem text_injective {a b : Num} (h : a.text = b.text) : a = b := by
  cases a with
  | int n =>
    cases b with
    | int k => exact congrArg int (text_int_injective h)
    | float y =>
      obtain ⟨c, hc, hne⟩ := exists_mem_text_float y
      exact absurd (mem_text_int (h ▸ hc)) hne
  | float x =>
    cases b with
    | int k =>
      obtain ⟨c, hc, hne⟩ := exists_mem_text_float x
      exact absurd (mem_text_int (h ▸ hc)) hne
    | float y => exact congrArg float (text_float_injective h)

end Squishc.Num
