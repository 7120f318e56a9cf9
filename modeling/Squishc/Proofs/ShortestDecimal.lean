import Mathlib.Algebra.Order.Field.Power
import Mathlib.Tactic
import Squishc.Number.Decimal

/-!
# Decimals that read back

A binary64 value is nearest to all numbers of an interval around it.  The intervals of
different values have no number in common, so a decimal that lies in the interval of a
value tells which value it is.  Seventeen digits are always enough to find such a
decimal: the grid of decimals of that length is finer than every interval is wide.

Main results:

- Theorem `reads_unique`: no number reads back as two values.
- Theorem `reads_shortest`: the shortest decimal of a value reads back as that value.
-/

namespace Squishc.Number

/-- The number that a decimal numeral stands for. -/
def Decimal.value (d : Decimal) : ℚ := d.coefficient * 10 ^ d.exponent

/-! ## Comparing scaled numbers -/

theorem pow_toNat {b : ℚ} (hb : b ≠ 0) (e : Int) : b ^ e.toNat = b ^ e * b ^ (-e).toNat := by
  rw [← zpow_natCast, ← zpow_natCast, ← zpow_add₀ hb]
  congr 1
  omega

theorem cast_tenTo (p : Int) : (tenTo p.toNat : ℚ) = 10 ^ p * tenTo (-p).toNat := by
  simp only [tenTo, Nat.pow_eq, Nat.cast_pow, Nat.cast_ofNat]
  exact pow_toNat (by norm_num) p

theorem cast_twoTo (q : Int) : (twoTo q.toNat : ℚ) = 2 ^ q * twoTo (-q).toNat := by
  simp only [twoTo, Nat.pow_eq, Nat.cast_pow, Nat.cast_ofNat]
  exact pow_toNat (by norm_num) q

theorem tenTo_pos (n : Nat) : 0 < tenTo n := Nat.pow_pos (by norm_num)

theorem twoTo_pos (n : Nat) : 0 < twoTo n := Nat.pow_pos (by norm_num)

/-- Both sides of an exact comparison are scaled by the same power of two and of ten. -/
theorem compareScaled_eq (a : Nat) (p : Int) (b : Nat) (e : Int) :
    compareScaled a p b e = compare ((a : ℚ) * 10 ^ p) (b * 2 ^ e) := by
  have hscale : (0 : ℚ) < (tenTo (-p).toNat * twoTo (-e).toNat : Nat) := by
    exact_mod_cast Nat.mul_pos (tenTo_pos _) (twoTo_pos _)
  have hleft : ((a * tenTo p.toNat * twoTo (-e).toNat : Nat) : ℚ) =
      a * 10 ^ p * (tenTo (-p).toNat * twoTo (-e).toNat : Nat) := by
    push_cast
    rw [cast_tenTo p]
    ring
  have hright : ((b * twoTo e.toNat * tenTo (-p).toNat : Nat) : ℚ) =
      b * 2 ^ e * (tenTo (-p).toNat * twoTo (-e).toNat : Nat) := by
    push_cast
    rw [cast_twoTo e]
    ring
  have hlt : a * tenTo p.toNat * twoTo (-e).toNat < b * twoTo e.toNat * tenTo (-p).toNat ↔
      (a : ℚ) * 10 ^ p < b * 2 ^ e := by
    rw [← Nat.cast_lt (α := ℚ), hleft, hright, mul_lt_mul_iff_of_pos_right hscale]
  have heq : a * tenTo p.toNat * twoTo (-e).toNat = b * twoTo e.toNat * tenTo (-p).toNat ↔
      (a : ℚ) * 10 ^ p = b * 2 ^ e := by
    rw [← Nat.cast_inj (R := ℚ), hleft, hright, mul_left_inj' hscale.ne']
  rcases lt_trichotomy ((a : ℚ) * 10 ^ p) (b * 2 ^ e) with h | h | h
  · rw [compare_lt_iff_lt.mpr h, compareScaled, compare_lt_iff_lt.mpr (hlt.mpr h)]
  · rw [compare_eq_iff_eq.mpr h, compareScaled, compare_eq_iff_eq.mpr (heq.mpr h)]
  · rw [compare_gt_iff_gt.mpr h, compareScaled, compare_gt_iff_gt]
    exact lt_of_le_of_ne (not_lt.mp fun h' => (hlt.mp h').not_gt h)
      fun h' => h.ne (heq.mp h'.symm).symm

/-! ## Intervals -/

/-- The lower end of the interval of numbers nearest to `m * 2 ^ q`, which is closer below
a power of two. -/
def lowEnd (m : Nat) (q : Int) : ℚ :=
  (if m = 2 ^ 52 ∧ -1074 < q then 4 * (m : ℚ) - 1 else 4 * m - 2) * 2 ^ (q - 2)

/-- The upper end of that interval. -/
def highEnd (m : Nat) (q : Int) : ℚ := (4 * m + 2) * 2 ^ (q - 2)

theorem value_eq (m : Nat) (q : Int) : (m : ℚ) * 2 ^ q = 4 * m * 2 ^ (q - 2) := by
  rw [show q = q - 2 + 2 by omega, zpow_add₀ (by norm_num), show q - 2 + 2 - 2 = q - 2 by omega]
  ring

/-- Whether a number reads back as `m * 2 ^ q`.  The ends of the interval do if the
mantissa is even. -/
def Reads (m : Nat) (q : Int) (x : ℚ) : Prop :=
  (lowEnd m q < x ∨ x = lowEnd m q ∧ m % 2 = 0) ∧ (x < highEnd m q ∨ x = highEnd m q ∧ m % 2 = 0)

theorem readsBack_iff {m : Nat} (hm : 0 < m) (q : Int) (c : Nat) (p : Int) :
    readsBack m q c p = true ↔ Reads m q (c * 10 ^ p) := by
  have hlow : ((if m = twoTo 52 ∧ -1074 < q then 4 * m - 1 else 4 * m - 2 : Nat) : ℚ) *
      2 ^ (q - 2) = lowEnd m q := by
    rw [lowEnd, twoTo, Nat.pow_eq]
    congr 1
    split
    · push_cast [show 1 ≤ 4 * m by omega]
      ring
    · push_cast [show 2 ≤ 4 * m by omega]
      ring
  have hhigh : ((4 * m + 2 : Nat) : ℚ) * 2 ^ (q - 2) = highEnd m q := by
    rw [highEnd]
    push_cast
    rfl
  simp only [readsBack, compareScaled_eq, Bool.and_eq_true, Bool.or_eq_true, beq_iff_eq,
    decide_eq_true_eq, compare_lt_iff_lt, compare_gt_iff_gt, compare_eq_iff_eq]
  rw [hlow, hhigh, Reads]

/-- The mantissa and the exponent of a positive finite value. -/
structure Normal (m : Nat) (q : Int) : Prop where
  pos : 0 < m
  lt : m < 2 ^ 53
  low : -1074 ≤ q
  high : q ≤ 971
  full : -1074 < q → 2 ^ 52 ≤ m

section

variable {m : Nat} {q : Int}

theorem Reads.low_le {x : ℚ} (h : Reads m q x) : lowEnd m q ≤ x :=
  h.1.elim le_of_lt fun h => h.1.ge

theorem Reads.le_high {x : ℚ} (h : Reads m q x) : x ≤ highEnd m q :=
  h.2.elim le_of_lt fun h => h.1.le

/-- The upper end only reads back if the mantissa is even. -/
theorem Reads.lt_high {x : ℚ} (h : Reads m q x) (hodd : m % 2 ≠ 0) : x < highEnd m q :=
  h.2.elim id fun h => absurd h.2 hodd

theorem Reads.low_lt {x : ℚ} (h : Reads m q x) (hodd : m % 2 ≠ 0) : lowEnd m q < x :=
  h.1.elim id fun h => absurd h.2 hodd

theorem le_lowEnd (m : Nat) (q : Int) : (4 * m - 2) * 2 ^ (q - 2) ≤ lowEnd m q := by
  have hunit : (0 : ℚ) < 2 ^ (q - 2) := by positivity
  rw [lowEnd]
  split <;> nlinarith

/-- A value above the least exponent is at least as great as the least mantissa there. -/
theorem Normal.le_lowEnd (h : Normal m q) (hq : -1074 < q) :
    (2 ^ 54 - 1) * 2 ^ (q - 2) ≤ lowEnd m q := by
  have hunit : (0 : ℚ) < 2 ^ (q - 2) := by positivity
  have hfull := h.full hq
  rw [lowEnd]
  by_cases hm : m = 2 ^ 52
  · rw [if_pos ⟨hm, hq⟩, hm]
    norm_num
  · rw [if_neg (fun hboth => hm hboth.1)]
    have hm' : ((2 ^ 52 + 1 : Nat) : ℚ) ≤ m := by exact_mod_cast (by omega : 2 ^ 52 + 1 ≤ m)
    push_cast at hm'
    refine mul_le_mul_of_nonneg_right ?_ hunit.le
    linarith

/-- The interval of a value ends before that of a greater one begins.  The two may
touch, but then one of the mantissas is odd and lacks its end. -/
theorem Reads.not_both {m' : Nat} {q' : Int} {x : ℚ} (h : Normal m q) (h' : Normal m' q')
    (hlt : q < q' ∨ q = q' ∧ m < m') (hx : Reads m q x) : ¬ Reads m' q' x := by
  intro hx'
  have hunit : (0 : ℚ) < 2 ^ (q - 2) := by positivity
  have hbelow := hx.le_high
  have habove := hx'.low_le
  rcases hlt with hq | ⟨rfl, hm⟩
  · -- The unit of the greater exponent is at least twice as great.
    have hunits : (2 : ℚ) * 2 ^ (q - 2) ≤ 2 ^ (q' - 2) := by
      rw [← zpow_one_add₀ (by norm_num)]
      exact zpow_le_zpow_right₀ (by norm_num) (by omega)
    have hlow := h'.le_lowEnd (lt_of_le_of_lt h.low hq)
    by_cases hmax : m = 2 ^ 53 - 1
    · have hstrict := hx.lt_high (by omega)
      rw [highEnd, hmax] at hstrict
      norm_num at hstrict hlow
      linarith
    · have hm : (m : ℚ) ≤ (2 ^ 53 - 2 : Nat) := by
        have := h.lt
        exact_mod_cast (by omega : m ≤ 2 ^ 53 - 2)
      have hprod := mul_le_mul_of_nonneg_right hm hunit.le
      rw [highEnd] at hbelow
      norm_num at hprod hlow
      linarith
  · have hlow := Number.le_lowEnd m' q
    rw [highEnd] at hbelow
    by_cases hnext : m' = m + 1
    · -- Neighbours have mantissas of different parity.
      subst hnext
      rcases Nat.mod_two_eq_zero_or_one m with heven | hodd
      · have hstrict := hx'.low_lt (by omega)
        push_cast at hlow
        linarith
      · have hstrict := hx.lt_high (by omega)
        rw [highEnd] at hstrict
        push_cast at hlow
        linarith
    · have hm' : ((m + 2 : Nat) : ℚ) ≤ m' := by exact_mod_cast (by omega : m + 2 ≤ m')
      have hprod := mul_le_mul_of_nonneg_right hm' hunit.le
      push_cast at hprod
      linarith

/-- No number reads back as two values. -/
theorem reads_unique {m' : Nat} {q' : Int} {x : ℚ} (h : Normal m q) (h' : Normal m' q')
    (hx : Reads m q x) (hx' : Reads m' q' x) : m = m' ∧ q = q' := by
  by_contra hne
  have hlt : (q < q' ∨ q = q' ∧ m < m') ∨ (q' < q ∨ q' = q ∧ m' < m) := by omega
  exact hlt.elim (fun hlt => hx.not_both h h' hlt hx') (fun hlt => hx'.not_both h' h hlt hx)

end

/-! ## The order of a value -/

/-- Compares a power of ten with a power of two by a quotient that approximates the
logarithm of two. -/
theorem zpow_le_zpow_of_ratio {a g e : Int} {n : Nat} (hn : 0 < n) (hg : g * n ≤ a * e)
    (hbase : ((10 : ℚ) ^ a) ^ e ≤ (2 ^ n) ^ e) : (10 : ℚ) ^ g ≤ 2 ^ e := by
  refine (pow_le_pow_iff_left₀ (by positivity) (by positivity) hn.ne').mp ?_
  calc ((10 : ℚ) ^ g) ^ n = 10 ^ (g * n) := by rw [← zpow_natCast, ← zpow_mul]
    _ ≤ 10 ^ (a * e) := zpow_le_zpow_right₀ (by norm_num) hg
    _ = (10 ^ a) ^ e := zpow_mul ..
    _ ≤ (2 ^ n) ^ e := hbase
    _ = (2 ^ e) ^ n := by rw [← zpow_natCast, ← zpow_natCast, ← zpow_mul, ← zpow_mul, mul_comm]

/-- The first guess at the order of a value is at most one too great. -/
theorem guess_le {e : Int} (hlow : -1074 ≤ e) (hhigh : e ≤ 1023) :
    (10 : ℚ) ^ (e * 30103 / 100000 - 1) ≤ 2 ^ e := by
  rcases le_total 0 e with he | he
  · refine zpow_le_zpow_of_ratio (a := 31) (n := 103) (by norm_num) (by omega) ?_
    exact zpow_le_zpow_left₀ he (by positivity) (by norm_num)
  · refine zpow_le_zpow_of_ratio (a := 28) (n := 93) (by norm_num) (by omega) ?_
    rw [← neg_neg e, zpow_neg _ (-e), zpow_neg _ (-e)]
    exact inv_anti₀ (by positivity) (zpow_le_zpow_left₀ (by omega) (by positivity) (by norm_num))

section

variable {m : Nat} {q : Int}

theorem two_pow_log2_le (hm : 0 < m) (q : Int) : (2 : ℚ) ^ ((m.log2 : Int) + q) ≤ m * 2 ^ q := by
  have hle : ((2 ^ m.log2 : Nat) : ℚ) ≤ m := by exact_mod_cast Nat.log2_self_le hm.ne'
  rw [zpow_add₀ (by norm_num), zpow_natCast]
  push_cast at hle
  exact mul_le_mul_of_nonneg_right hle (by positivity)

/-- A value has at least as many digits before the point as its order says. -/
theorem tenTo_decimalOrder_le (h : Normal m q) : (10 : ℚ) ^ (decimalOrder m q - 1) ≤ m * 2 ^ q := by
  have hle : ∀ k : Int, compareScaled 1 k m q ≠ .gt → (10 : ℚ) ^ k ≤ m * 2 ^ q := by
    intro k hk
    rw [compareScaled_eq, Ne, compare_gt_iff_gt, Nat.cast_one, one_mul] at hk
    exact not_lt.mp hk
  unfold decimalOrder
  simp only [beq_iff_eq]
  split
  · -- Only the guess itself can be too great.
    have hlog : m.log2 < 53 := (Nat.log2_lt h.pos.ne').mpr h.lt
    have hlow := h.low
    have hhigh := h.high
    exact (guess_le (by omega) (by omega)).trans (two_pow_log2_le h.pos q)
  · next hguess =>
    split
    · simpa using hle _ hguess
    · next hnext =>
      rw [show ∀ a : Int, a + 2 - 1 = a + 1 by intro a; omega]
      exact hle _ hnext

/-! ## Grids -/

/-- The grid point below a value. -/
def gridFloor (m : Nat) (q p : Int) : Nat :=
  m * twoTo q.toNat * tenTo (-p).toNat / (twoTo (-q).toNat * tenTo p.toNat)

/-- A value lies between two neighbours on a grid. -/
theorem gridFloor_bounds (m : Nat) (q p : Int) :
    (gridFloor m q p : ℚ) * 10 ^ p ≤ m * 2 ^ q ∧
      m * 2 ^ q < ((gridFloor m q p + 1 : Nat) : ℚ) * 10 ^ p := by
  have hscale : (0 : ℚ) < (twoTo (-q).toNat * tenTo (-p).toNat : Nat) := by
    exact_mod_cast Nat.mul_pos (twoTo_pos _) (tenTo_pos _)
  have hnum : ((m * twoTo q.toNat * tenTo (-p).toNat : Nat) : ℚ) =
      m * 2 ^ q * (twoTo (-q).toNat * tenTo (-p).toNat : Nat) := by
    push_cast
    rw [cast_twoTo q]
    ring
  have hden : ((twoTo (-q).toNat * tenTo p.toNat : Nat) : ℚ) =
      10 ^ p * (twoTo (-q).toNat * tenTo (-p).toNat : Nat) := by
    push_cast
    rw [cast_tenTo p]
    ring
  have hpos := Nat.mul_pos (twoTo_pos (-q).toNat) (tenTo_pos p.toNat)
  have hle := Nat.div_mul_le_self (m * twoTo q.toNat * tenTo (-p).toNat)
    (twoTo (-q).toNat * tenTo p.toNat)
  have hlt := Nat.lt_mul_div_succ (m * twoTo q.toNat * tenTo (-p).toNat) hpos
  rw [← gridFloor] at hle hlt
  rw [← Nat.cast_le (α := ℚ), Nat.cast_mul, hnum, hden, ← mul_assoc,
    mul_le_mul_iff_of_pos_right hscale] at hle
  rw [Nat.mul_comm (_ * _) (_ + 1), ← Nat.cast_lt (α := ℚ), hnum, Nat.cast_mul (_ + 1), hden,
    ← mul_assoc, mul_lt_mul_iff_of_pos_right hscale] at hlt
  exact ⟨hle, hlt⟩

/-- A grid that is finer than the interval of a value is wide has a point that reads
back: of the two neighbours of the value one does. -/
theorem reads_gridFloor_or {p : Int} (hfine : (10 : ℚ) ^ p < highEnd m q - lowEnd m q) :
    Reads m q (gridFloor m q p * 10 ^ p) ∨ Reads m q ((gridFloor m q p + 1 : Nat) * 10 ^ p) := by
  have hunit : (0 : ℚ) < 2 ^ (q - 2) := by positivity
  rcases gridFloor_bounds m q p with ⟨hlower, hupper⟩
  have hlow : lowEnd m q < m * 2 ^ q := by
    rw [value_eq, lowEnd]
    refine mul_lt_mul_of_pos_right ?_ hunit
    split <;> linarith
  have hhigh : m * 2 ^ q < highEnd m q := by
    rw [value_eq, highEnd]
    refine mul_lt_mul_of_pos_right ?_ hunit
    linarith
  by_cases h : lowEnd m q < gridFloor m q p * 10 ^ p
  · exact .inl ⟨.inl h, .inl (hlower.trans_lt hhigh)⟩
  · refine .inr ⟨.inl (hlow.trans hupper), .inl ?_⟩
    push_cast
    linarith

/-- Seventeen digits make a grid that is fine enough. -/
theorem seventeen_digits_fine (h : Normal m q) :
    (10 : ℚ) ^ (decimalOrder m q - 17) < highEnd m q - lowEnd m q := by
  have hunit : (0 : ℚ) < 2 ^ (q - 2) := by positivity
  have horder := tenTo_decimalOrder_le h
  have hstep : (10 : ℚ) ^ (decimalOrder m q - 1) = 10 ^ (decimalOrder m q - 17) * 10 ^ 16 := by
    rw [← zpow_natCast, ← zpow_add₀ (by norm_num)]
    congr 1
    push_cast
    ring
  rw [hstep, value_eq] at horder
  rw [highEnd, lowEnd]
  by_cases hm : m = 2 ^ 52 ∧ -1074 < q
  · rw [if_pos hm, hm.1]
    rw [hm.1] at horder
    norm_num at horder ⊢
    linarith
  · rw [if_neg hm]
    have hlt : (m : ℚ) < 2 ^ 53 := by exact_mod_cast h.lt
    have hprod := mul_lt_mul_of_pos_right hlt hunit
    norm_num at horder hprod ⊢
    linarith

/-! ## The shortest decimal -/

theorem gridPoint?_eq (m : Nat) (q p : Int) :
    gridPoint? m q p =
      match readsBack m q (gridFloor m q p) p, readsBack m q (gridFloor m q p + 1) p with
      | true, false => some (gridFloor m q p)
      | false, true => some (gridFloor m q p + 1)
      | false, false => none
      | true, true =>
        match compareScaled (2 * gridFloor m q p + 1) p (2 * m) q with
        | .gt => some (gridFloor m q p)
        | .lt => some (gridFloor m q p + 1)
        | .eq => some (if gridFloor m q p % 2 = 0 then gridFloor m q p else gridFloor m q p + 1) :=
  rfl

/-- The chosen point of a grid reads back. -/
theorem readsBack_of_gridPoint? {p : Int} {c : Nat} (h : gridPoint? m q p = some c) :
    readsBack m q c p = true := by
  rw [gridPoint?_eq] at h
  split at h
  · simp_all
  · simp_all
  · cases h
  · split at h
    · simp_all
    · simp_all
    · split at h <;> simp_all

theorem gridPoint?_isSome (hm : 0 < m) {p : Int}
    (hfine : (10 : ℚ) ^ p < highEnd m q - lowEnd m q) : ∃ c, gridPoint? m q p = some c := by
  rw [gridPoint?_eq]
  split
  · exact ⟨_, rfl⟩
  · exact ⟨_, rfl⟩
  · next hlower hupper =>
    rcases reads_gridFloor_or hfine with h | h
    · rw [← readsBack_iff hm] at h
      simp_all
    · rw [← readsBack_iff hm] at h
      simp_all
  · split <;> exact ⟨_, rfl⟩

/-- Scanning grids gives a decimal that reads back, if the last grid is fine enough. -/
theorem readsBack_scanGrids {order : Int} : ∀ (left digits : Nat),
    (∃ c, gridPoint? m q (order - (digits + left : Nat)) = some c) →
    readsBack m q (scanGrids m q order digits left).coefficient
      (scanGrids m q order digits left).exponent = true
  | 0, digits, ⟨c, hc⟩ => by
    rw [Nat.add_zero] at hc
    rw [scanGrids, hc]
    exact readsBack_of_gridPoint? hc
  | left + 1, digits, hlast => by
    rw [scanGrids]
    cases hc : gridPoint? m q (order - digits) with
    | some c => exact readsBack_of_gridPoint? hc
    | none =>
      refine readsBack_scanGrids left (digits + 1) ?_
      rwa [show digits + 1 + left = digits + (left + 1) by omega]

/-- The shortest decimal of a value reads back as that value. -/
theorem reads_shortest (h : Normal m q) : Reads m q (shortest m q).value := by
  rw [Decimal.value, ← readsBack_iff h.pos]
  exact readsBack_scanGrids 16 1 (gridPoint?_isSome h.pos (seventeen_digits_fine h))

end

end Squishc.Number
