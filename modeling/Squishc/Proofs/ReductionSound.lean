import Mathlib.Tactic.SplitIfs
import Squishc.Proofs.TreeForm
import Squishc.Proofs.Semantics

/-!
# Reductions keep values

Every rule for expressions gives the value of the expression it replaces,
whenever that has one.  A rule may drop an operand that is stuck, so nothing is
said about expressions without a value.

Main results:

- Theorem `eval_reduceBinary`: folding, neutral and absorbing numbers, and
  disjunctions with a known operand.
- Theorem `eval_optimize`: an optimized expression has the value of the
  expression.
-/

namespace Squishc.Node

variable {σ : Store} {x : Value}

/-! ## Operations with two operands -/

/-- The operators that evaluate both operands. -/
theorem shortcut_eq_none {op : Op} (hconj : op ≠ .conj) (hdisj : op ≠ .disj) (a : Value) :
    a.shortcut op = none := by
  unfold Value.shortcut
  split <;> simp_all

/-- A binary operation has a value when its left operand decides it, or when both
operands have values that go together. -/
theorem eval_binary_eq_some {op : Op} {left right : Node} {type : Ty} :
    (binary op left right type).eval σ = some x ↔
      ∃ a, left.eval σ = some a ∧
        (a.shortcut op = some x ∨
          a.shortcut op = none ∧ ∃ b, right.eval σ = some b ∧ Value.binary op a b = some x) := by
  rw [eval, Option.bind_eq_some_iff]
  refine exists_congr fun a => and_congr_right fun _ => ?_
  cases hshort : a.shortcut op with
  | some z => simp
  | none => simp [Option.bind_eq_some_iff]

/-! ## Folding -/

/-- Folding two integers gives the value of the operation. -/
theorem eval_ofConstant_fold {op : Op} {m n : Int} {c : Constant}
    (hfold : Num.fold op (.int m) (.int n) = some c)
    (hx : Value.binary op (.int m) (.int n) = some x) : (ofConstant c).eval σ = some x := by
  cases op with
  | add | sub | mul | lt | le | eq | ne | ge | gt =>
    cases hfold
    cases hx
    rfl
  | mod =>
    simp only [Num.fold, Num.mod?, Value.binary] at hfold hx
    split_ifs at hfold hx
    cases hfold
    cases hx
    rfl
  | pow =>
    simp only [Num.fold, Num.pow?, Value.binary] at hfold hx
    split_ifs at hfold hx
    cases hfold
    cases hx
    rfl
  | div | conj | disj | not | other _ => cases hx

/-! ## Neutral and absorbing numbers -/

theorem eval_number_eq_some {a : Num} :
    (number a).eval σ = some x ↔ ∃ m, a = .int m ∧ x = .int m := by
  cases a with
  | int m => simp [eval, eq_comm]
  | float y => simp [eval]

/-- What an operation relates to an integer is an integer. -/
theorem int_of_binary_left {op : Op} {m : Int} {b : Value}
    (h : Value.binary op (.int m) b = some x) : ∃ n, b = .int n := by
  cases b with
  | int n => exact ⟨n, rfl⟩
  | bool b => cases op <;> cases h
  | string s => cases op <;> cases h

theorem int_of_binary_right {op : Op} {n : Int} {a : Value}
    (h : Value.binary op a (.int n) = some x) : ∃ m, a = .int m := by
  cases a with
  | int m => exact ⟨m, rfl⟩
  | bool b => cases op <;> cases h
  | string s => cases op <;> cases h

/-- An operation with a number on its left that has a value is one on integers. -/
theorem eval_binary_number_left {op : Op} {a : Num} {right : Node} {type : Ty}
    (hconj : op ≠ .conj) (hdisj : op ≠ .disj)
    (h : (binary op (number a) right type).eval σ = some x) :
    ∃ m n, a = .int m ∧ right.eval σ = some (.int n) ∧
      Value.binary op (.int m) (.int n) = some x := by
  obtain ⟨y, hy, hx⟩ := eval_binary_eq_some.1 h
  obtain ⟨m, rfl, rfl⟩ := eval_number_eq_some.1 hy
  simp only [shortcut_eq_none hconj hdisj, reduceCtorEq, true_and, false_or] at hx
  obtain ⟨b, hb, hx⟩ := hx
  obtain ⟨n, rfl⟩ := int_of_binary_left hx
  exact ⟨m, n, rfl, hb, hx⟩

/-- An operation with a number on its right that has a value is one on integers. -/
theorem eval_binary_number_right {op : Op} {b : Num} {left : Node} {type : Ty}
    (hconj : op ≠ .conj) (hdisj : op ≠ .disj)
    (h : (binary op left (number b) type).eval σ = some x) :
    ∃ m n, b = .int n ∧ left.eval σ = some (.int m) ∧
      Value.binary op (.int m) (.int n) = some x := by
  obtain ⟨a, ha, hx⟩ := eval_binary_eq_some.1 h
  simp only [shortcut_eq_none hconj hdisj, reduceCtorEq, true_and, false_or] at hx
  obtain ⟨y, hy, hx⟩ := hx
  obtain ⟨n, rfl, rfl⟩ := eval_number_eq_some.1 hy
  obtain ⟨m, rfl⟩ := int_of_binary_right hx
  exact ⟨m, n, rfl, ha, hx⟩

/-- A number on the left that is neutral or absorbing. -/
theorem eval_reduceLeft {op : Op} {a : Num} {right : Node} {type : Ty}
    (h : (binary op (number a) right type).eval σ = some x) :
    (reduceLeft op a right type).eval σ = some x := by
  unfold reduceLeft
  split_ifs with hadd hmul hsub hpow habsorb
  · simp only [Bool.and_eq_true, decide_eq_true_eq] at hadd
    obtain ⟨hzero, rfl⟩ := hadd
    obtain ⟨m, n, rfl, hn, hx⟩ := eval_binary_number_left (by simp) (by simp) h
    obtain rfl : m = 0 := by simpa [Num.isZero] using hzero
    rw [hn, ← hx, Value.binary, Int.zero_add]
  · simp only [Bool.and_eq_true, decide_eq_true_eq] at hmul
    obtain ⟨hone, rfl⟩ := hmul
    obtain ⟨m, n, rfl, hn, hx⟩ := eval_binary_number_left (by simp) (by simp) h
    obtain rfl : m = 1 := by simpa [Num.isOne] using hone
    rw [hn, ← hx, Value.binary, Int.one_mul]
  · simp only [Bool.and_eq_true, decide_eq_true_eq] at hsub
    obtain ⟨hzero, rfl⟩ := hsub
    obtain ⟨m, n, rfl, hn, hx⟩ := eval_binary_number_left (by simp) (by simp) h
    obtain rfl : m = 0 := by simpa [Num.isZero] using hzero
    rw [eval, hn, ← hx, Value.binary, Int.zero_sub]
    rfl
  · simp only [Bool.and_eq_true, decide_eq_true_eq] at hpow
    obtain ⟨hone, rfl⟩ := hpow
    obtain ⟨m, n, rfl, hn, hx⟩ := eval_binary_number_left (by simp) (by simp) h
    obtain rfl : m = 1 := by simpa [Num.isOne] using hone
    have hpower : Int.pow 1 n.toNat = 1 := Int.one_pow
    rw [Value.binary, hpower] at hx
    split_ifs at hx
    exact hx
  · simp only [Bool.and_eq_true, Bool.or_eq_true, decide_eq_true_eq] at habsorb
    obtain ⟨hzero, rfl | rfl⟩ := habsorb
    · obtain ⟨m, n, rfl, hn, hx⟩ := eval_binary_number_left (by simp) (by simp) h
      obtain rfl : m = 0 := by simpa [Num.isZero] using hzero
      rw [← hx, Value.binary, Int.zero_mul]
      rfl
    · obtain ⟨m, n, rfl, hn, hx⟩ := eval_binary_number_left (by simp) (by simp) h
      cases hx
  · exact h

/-- A number on the right that is neutral or absorbing. -/
theorem eval_reduceRight {op : Op} {b : Num} {left : Node} {type : Ty}
    (h : (binary op left (number b) type).eval σ = some x) :
    (reduceRight op left b type).eval σ = some x := by
  unfold reduceRight
  split_ifs with hsum hmul habsorb hpow
  · simp only [Bool.and_eq_true, Bool.or_eq_true, decide_eq_true_eq] at hsum
    obtain ⟨hzero, rfl | rfl⟩ := hsum
    · obtain ⟨m, n, rfl, hm, hx⟩ := eval_binary_number_right (by simp) (by simp) h
      obtain rfl : n = 0 := by simpa [Num.isZero] using hzero
      rw [hm, ← hx, Value.binary, Int.add_zero]
    · obtain ⟨m, n, rfl, hm, hx⟩ := eval_binary_number_right (by simp) (by simp) h
      obtain rfl : n = 0 := by simpa [Num.isZero] using hzero
      rw [hm, ← hx, Value.binary, Int.sub_zero]
  · simp only [Bool.and_eq_true, Bool.or_eq_true, decide_eq_true_eq] at hmul
    obtain ⟨hone, rfl | rfl⟩ := hmul
    · obtain ⟨m, n, rfl, hm, hx⟩ := eval_binary_number_right (by simp) (by simp) h
      obtain rfl : n = 1 := by simpa [Num.isOne] using hone
      rw [hm, ← hx, Value.binary, Int.mul_one]
    · obtain ⟨m, n, rfl, hm, hx⟩ := eval_binary_number_right (by simp) (by simp) h
      cases hx
  · simp only [Bool.and_eq_true, decide_eq_true_eq] at habsorb
    obtain ⟨hzero, rfl⟩ := habsorb
    obtain ⟨m, n, rfl, hm, hx⟩ := eval_binary_number_right (by simp) (by simp) h
    obtain rfl : n = 0 := by simpa [Num.isZero] using hzero
    rw [← hx, Value.binary, Int.mul_zero]
    rfl
  · simp only [Bool.and_eq_true, decide_eq_true_eq] at hpow
    obtain ⟨hzero, rfl⟩ := hpow
    obtain ⟨m, n, rfl, hm, hx⟩ := eval_binary_number_right (by simp) (by simp) h
    obtain rfl : n = 0 := by simpa [Num.isZero] using hzero
    have hpower : Int.pow m (Int.toNat 0) = 1 := Int.pow_zero m
    rw [Value.binary, hpower, if_pos (Int.le_refl 0)] at hx
    exact hx
  · exact h

/-! ## Disjunctions -/

/-- A disjunction with an operand that is known to be false. -/
theorem eval_reduceDisjunction {left right : Node} {type : Ty}
    (h : (binary .disj left right type).eval σ = some x) :
    (reduceDisjunction left right type).eval σ = some x := by
  obtain ⟨a, ha, hx⟩ := eval_binary_eq_some.1 h
  fun_cases reduceDisjunction left right type with
  | case1 =>
    cases ha
    obtain hshort | ⟨-, b, hb, hx⟩ := hx
    · cases hshort
    · cases b <;> cases hx
      simpa using hb
  | case2 =>
    rw [ha]
    cases a with
    | bool value =>
      cases value with
      | false => simpa [Value.shortcut, eval, Value.binary] using hx
      | true => simpa [Value.shortcut] using hx
    | int m =>
      obtain hshort | ⟨-, b, hb, hx⟩ := hx
      · cases hshort
      · cases b <;> cases hx
    | string s =>
      obtain hshort | ⟨-, b, hb, hx⟩ := hx
      · cases hshort
      · cases b <;> cases hx
  | case3 => exact h

/-! ## Expressions -/

/-- Reducing a binary operation keeps its value. -/
theorem eval_reduceBinary {op : Op} {left right : Node} {type : Ty}
    (h : (binary op left right type).eval σ = some x) :
    (reduceBinary op left right type).eval σ = some x := by
  unfold reduceBinary
  split_ifs with hop
  · subst hop
    exact eval_reduceDisjunction h
  · split
    · next a b =>
      split
      · next c hfold =>
        have hconj : op ≠ .conj := by
          rintro rfl
          cases hfold
        obtain ⟨m, n, rfl, hn, hx⟩ := eval_binary_number_left hconj hop h
        obtain ⟨k, rfl, hk⟩ := eval_number_eq_some.1 hn
        cases hk
        exact eval_ofConstant_fold hfold hx
      · exact h
    · exact eval_reduceLeft h
    · exact eval_reduceRight h
    · exact h

/-- Reducing an operation with one operand keeps its value. -/
theorem eval_reduceUnary {op : Op} {operand : Node} {type : Ty}
    (h : (unary op operand type).eval σ = some x) :
    (reduceUnary op operand type).eval σ = some x := by
  fun_cases reduceUnary op operand type with
  | case1 a =>
    cases a with
    | int m => exact h
    | float y => cases h
  | case2 b => exact h
  | case3 => exact h

/-- An optimized expression has the value of the expression. -/
theorem eval_optimize : ∀ {e : Node} {x : Value}, e.eval σ = some x → e.optimize.eval σ = some x
  | bool _, _, h | string _ _, _, h | var _, _, h | number _, _, h => h
  | unary op operand type, x, h => by
    rw [eval, Option.bind_eq_some_iff] at h
    obtain ⟨a, ha, hx⟩ := h
    rw [optimize_unary]
    refine eval_reduceUnary ?_
    rw [eval, eval_optimize ha]
    exact hx
  | binary op left right type, x, h => by
    rw [optimize_binary]
    refine eval_reduceBinary ?_
    obtain ⟨a, ha, hx⟩ := eval_binary_eq_some.1 h
    refine eval_binary_eq_some.2 ⟨a, eval_optimize ha, hx.imp id ?_⟩
    rintro ⟨hshort, b, hb, hx⟩
    exact ⟨hshort, b, eval_optimize hb, hx⟩
  | conditional consequent test alternate type, x, h => by
    rw [optimize_conditional]
    rw [eval] at h ⊢
    split at h
    · next htest => rw [eval_optimize htest]; exact eval_optimize h
    · next htest => rw [eval_optimize htest]; exact eval_optimize h
    · cases h
  | index a i type, x, h => by
    rw [eval, Option.bind_eq_some_iff] at h
    obtain ⟨y, hy, h⟩ := h
    rw [Option.bind_eq_some_iff] at h
    obtain ⟨z, hz, hx⟩ := h
    rw [optimize_index, eval, eval_optimize hy, Option.bind_some, eval_optimize hz]
    exact hx

end Squishc.Node
