import Squishc.Proofs.Reduction

/-!
# Which rule applies

The rules for a binary operation ask for a number or a literal false among its
operands.  An operand is neutral if the other one can take the place of the
operation, and absorbing if the other one does not matter.  This module says for
each outcome of a reduction what its operands were like, so that a law about the
outcome needs no look at the rules themselves.

Main results:

- Theorem `rule_reduceBinary`: the rule by which a binary operation is reduced.
- Theorem `reduceBinary_of_not_reducible`: an operation to which no rule applies
  stays.
-/

namespace Squishc

/-! ## Zero and one -/

theorem unpack_zero : (0 : Float).toModel.unpack = .zero .positive := by rfl

theorem unpack_one : ∃ mantissa exponent hpos,
    (1 : Float).toModel.unpack = .finite .positive mantissa exponent hpos := ⟨_, _, _, rfl⟩

/-- No number is both one and zero. -/
theorem Num.isZero_of_isOne {a : Num} (h : a.isOne = true) : a.isZero = false := by
  cases a with
  | int n =>
    have hn : n = 1 := by simpa [isOne] using h
    simp [isZero, hn]
  | float x =>
    obtain ⟨mantissa, exponent, hpos, hone⟩ := unpack_one
    change x.toModel.unpack.beq (1 : Float).toModel.unpack = true at h
    change x.toModel.unpack.beq (0 : Float).toModel.unpack = false
    rw [hone] at h
    rw [unpack_zero]
    cases hx : x.toModel.unpack with
    | zero sign =>
      rw [hx] at h
      cases h
    | notANumber => rfl
    | infinity sign => cases sign <;> rfl
    | finite sign m e hm => cases sign <;> rfl

namespace Node

/-! ## Neutral and absorbing operands -/

/-- Whether a node is a number. -/
def isNumber : Node → Bool
  | number _ => true
  | _ => false

/-- A left operand for which the right one alone can stand. -/
def neutralLeft (op : Op) : Node → Bool
  | number a => (a.isZero && op = .add) || (a.isOne && op = .mul)
  | bool b => !b && op = .disj
  | _ => false

/-- A right operand for which the left one alone can stand. -/
def neutralRight (op : Op) : Node → Bool
  | number b => (b.isZero && (op = .add || op = .sub)) || (b.isOne && (op = .mul || op = .div))
  | bool b => !b && op = .disj
  | _ => false

/-- A left operand from which the right one is subtracted as from nothing. -/
def turnsRight (op : Op) : Node → Bool
  | number a => a.isZero && op = .sub
  | _ => false

/-- A left operand beside which the right one does not matter. -/
def absorbsRight (op : Op) : Node → Bool
  | number a => (a.isZero && (op = .mul || op = .div)) || (a.isOne && op = .pow)
  | _ => false

/-- A right operand beside which the left one does not matter. -/
def absorbsLeft (op : Op) : Node → Bool
  | number b => b.isZero && (op = .mul || op = .pow)
  | _ => false

/-- Whether an operation is known from one of its operands alone. -/
def absorbs (op : Op) (left right : Node) : Bool :=
  left.absorbsRight op || right.absorbsLeft op

/-- Whether two numbers can be folded. -/
def folds (op : Op) : Node → Node → Bool
  | number a, number b => (Num.fold op a b).isSome
  | _, _ => false

/-- Whether some rule applies to an operation.  Between two numbers only folding
counts. -/
def reducible (op : Op) (left right : Node) : Bool :=
  if left.isNumber && right.isNumber then folds op left right
  else left.neutralLeft op || right.neutralRight op || left.turnsRight op || absorbs op left right

/-! ## Rules -/

/-- The rule by which a binary operation is reduced, with what it asks of the
operands. -/
inductive Rule (op : Op) (left right : Node) (type : Ty) : Node → Prop where
  | folded {a b : Num} {c : Constant} (hleft : left = number a) (hright : right = number b)
      (hfold : Num.fold op a b = some c) : Rule op left right type (ofConstant c)
  | right (hneutral : left.neutralLeft op = true)
      (hnumber : (left.isNumber && right.isNumber) = false) : Rule op left right type right
  | left (hneutral : right.neutralRight op = true) (hleft : left.neutralLeft op = false)
      (hnumber : (left.isNumber && right.isNumber) = false) : Rule op left right type left
  | turned (hturns : left.turnsRight op = true) (hnumber : right.isNumber = false) :
      Rule op left right type (unary .sub right type)
  | absorbed (k : Int) (habsorbs : absorbs op left right = true)
      (hnumber : (left.isNumber && right.isNumber) = false) :
      Rule op left right type (number (.int k))
  | kept (hirreducible : reducible op left right = false) :
      Rule op left right type (binary op left right type)

theorem eq_number_of_isNumber {n : Node} (h : n.isNumber = true) : ∃ a, n = number a := by
  cases n with
  | number a => exact ⟨a, rfl⟩
  | _ => cases h

theorem isNumber_eq_false {n : Node} (h : ∀ a, n ≠ number a) : n.isNumber = false := by
  rw [← Bool.not_eq_true]
  intro hn
  rcases eq_number_of_isNumber hn with ⟨a, ha⟩
  exact h a ha

/-- Only numbers are neutral for an operation other than a disjunction. -/
theorem neutral_of_not_isNumber {op : Op} (hop : op ≠ .disj) {n : Node} (h : n.isNumber = false) :
    n.neutralLeft op = false ∧ n.neutralRight op = false := by
  cases n with
  | number a => cases h
  | bool b => simp [neutralLeft, neutralRight, hop]
  | _ => exact ⟨rfl, rfl⟩

theorem turnsRight_of_not_isNumber {op : Op} {n : Node} (h : n.isNumber = false) :
    n.turnsRight op = false := by
  cases n with
  | number a => cases h
  | _ => rfl

theorem absorbsLeft_of_not_isNumber {op : Op} {n : Node} (h : n.isNumber = false) :
    n.absorbsLeft op = false := by
  cases n with
  | number a => cases h
  | _ => rfl

theorem absorbsRight_of_not_isNumber {op : Op} {n : Node} (h : n.isNumber = false) :
    n.absorbsRight op = false := by
  cases n with
  | number a => cases h
  | _ => rfl

/-- Beside a neutral left operand the right one matters. -/
theorem absorbs_of_neutralLeft {op : Op} {left right : Node} (h : left.neutralLeft op = true)
    (hnumbers : (left.isNumber && right.isNumber) = false) : absorbs op left right = false := by
  cases left with
  | number a =>
    have hright : right.isNumber = false := hnumbers
    rw [absorbs, absorbsLeft_of_not_isNumber hright, Bool.or_false]
    simp only [neutralLeft, Bool.or_eq_true, Bool.and_eq_true, decide_eq_true_eq] at h
    rcases h with ⟨-, hop⟩ | ⟨hone, hop⟩
    · simp [absorbsRight, hop]
    · simp [absorbsRight, hop, Num.isZero_of_isOne hone]
  | bool b =>
    simp only [neutralLeft, Bool.and_eq_true, decide_eq_true_eq] at h
    cases right <;> simp [absorbs, absorbsRight, absorbsLeft, h.2]
  | _ => cases h

/-- Beside a neutral right operand the left one matters. -/
theorem absorbs_of_neutralRight {op : Op} {left right : Node} (h : right.neutralRight op = true)
    (hnumbers : (left.isNumber && right.isNumber) = false) : absorbs op left right = false := by
  cases right with
  | number b =>
    have hleft : left.isNumber = false := by simpa [isNumber] using hnumbers
    rw [absorbs, absorbsRight_of_not_isNumber hleft, Bool.false_or]
    simp only [neutralRight, Bool.or_eq_true, Bool.and_eq_true, decide_eq_true_eq] at h
    rcases h with ⟨-, hop | hop⟩ | ⟨hone, hop | hop⟩
    · simp [absorbsLeft, hop]
    · simp [absorbsLeft, hop]
    · simp [absorbsLeft, hop, Num.isZero_of_isOne hone]
    · simp [absorbsLeft, hop]
  | bool b =>
    simp only [neutralRight, Bool.and_eq_true, decide_eq_true_eq] at h
    cases left <;> simp [absorbs, absorbsRight, absorbsLeft, h.2]
  | _ => cases h

theorem absorbs_of_turnsRight {op : Op} {left right : Node} (h : left.turnsRight op = true) :
    absorbs op left right = false := by
  cases left with
  | number a =>
    simp only [turnsRight, Bool.and_eq_true, decide_eq_true_eq] at h
    cases right <;> simp [absorbs, absorbsRight, absorbsLeft, h.2]
  | _ => cases h

/-- Beside an absorbing operand none is neutral. -/
theorem neutral_of_absorbs {op : Op} {left right : Node} (h : absorbs op left right = true)
    (hnumbers : (left.isNumber && right.isNumber) = false) :
    left.neutralLeft op = false ∧ right.neutralRight op = false := by
  constructor
  · rw [← Bool.not_eq_true]
    intro hneutral
    rw [absorbs_of_neutralLeft hneutral hnumbers] at h
    cases h
  · rw [← Bool.not_eq_true]
    intro hneutral
    rw [absorbs_of_neutralRight hneutral hnumbers] at h
    cases h

/-- A number from which something is subtracted is not neutral, nor is what is
subtracted. -/
theorem neutral_of_turnsRight {op : Op} {left right : Node} (h : left.turnsRight op = true)
    (hright : right.isNumber = false) :
    left.neutralLeft op = false ∧ right.neutralRight op = false := by
  cases left with
  | number a =>
    simp only [turnsRight, Bool.and_eq_true, decide_eq_true_eq] at h
    rcases h with ⟨-, rfl⟩
    constructor
    · simp [neutralLeft]
    · exact (neutral_of_not_isNumber (by simp) hright).2
  | _ => cases h

theorem absorbs_of_not_reducible {op : Op} {left right : Node}
    (h : reducible op left right = false) (hnumbers : (left.isNumber && right.isNumber) = false) :
    absorbs op left right = false := by
  rw [reducible, hnumbers, if_neg Bool.false_ne_true, Bool.or_eq_false_iff] at h
  exact h.2

theorem neutralLeft_disj (left : Node) : left.neutralLeft .disj = left.isFalse := by
  cases left with
  | bool b => cases b <;> rfl
  | _ => simp [neutralLeft, isFalse]

/-- A disjunction is reducible if an operand is known to be false. -/
theorem reducible_disj (left right : Node) :
    reducible .disj left right = (left.isFalse || right.isFalse) := by
  have hright : right.neutralRight .disj = right.isFalse := by
    cases right with
    | bool b => cases b <;> rfl
    | _ => simp [neutralRight, isFalse]
  have hturns : left.turnsRight .disj = false := by cases left <;> simp [turnsRight]
  have habsorbsRight : left.absorbsRight .disj = false := by cases left <;> simp [absorbsRight]
  have habsorbsLeft : right.absorbsLeft .disj = false := by cases right <;> simp [absorbsLeft]
  unfold reducible
  split_ifs with hnumbers
  · rw [Bool.and_eq_true] at hnumbers
    rcases eq_number_of_isNumber hnumbers.1 with ⟨a, rfl⟩
    rcases eq_number_of_isNumber hnumbers.2 with ⟨b, rfl⟩
    rfl
  · rw [neutralLeft_disj, hright, hturns, absorbs, habsorbsRight, habsorbsLeft]
    simp

theorem isFalse_eq_false {n : Node} (h : n ≠ bool false) : n.isFalse = false := by
  unfold isFalse
  split
  · exact (h rfl).elim
  · rfl

theorem rule_reduceDisjunction (left right : Node) (type : Ty) :
    Rule .disj left right type (reduceDisjunction left right type) := by
  unfold reduceDisjunction
  split
  · exact .right rfl rfl
  · next hleft =>
    refine .left rfl ?_ (by simp [isNumber])
    rw [neutralLeft_disj, isFalse_eq_false hleft]
  · next hleft hright =>
    apply Rule.kept
    rw [reducible_disj, isFalse_eq_false hleft, isFalse_eq_false hright]
    rfl

theorem rule_reduceLeft {op : Op} (hop : op ≠ .disj) (a : Num) {right : Node} (type : Ty)
    (hright : right.isNumber = false) :
    Rule op (number a) right type (reduceLeft op a right type) := by
  have hnumbers : ((number a).isNumber && right.isNumber) = false := by
    rw [hright, Bool.and_false]
  fun_cases reduceLeft op a right type with
  | case1 hadd => exact .right (by simp [neutralLeft, hadd]) hnumbers
  | case2 _ hmul => exact .right (by simp [neutralLeft, hmul]) hnumbers
  | case3 _ _ hsub => exact .turned hsub hright
  | case4 _ _ _ hpow => exact .absorbed 1 (by simp [absorbs, absorbsRight, hpow]) hnumbers
  | case5 _ _ _ _ hzero => exact .absorbed 0 (by simp [absorbs, absorbsRight, hzero]) hnumbers
  | case6 hadd hmul hsub hpow hzero =>
    apply Rule.kept
    rw [reducible, hnumbers, (neutral_of_not_isNumber hop hright).2, absorbs,
      absorbsLeft_of_not_isNumber hright]
    simp_all [neutralLeft, turnsRight, absorbsRight]

theorem rule_reduceRight {op : Op} (hop : op ≠ .disj) {left : Node} (b : Num) (type : Ty)
    (hleft : left.isNumber = false) :
    Rule op left (number b) type (reduceRight op left b type) := by
  have hnumbers : (left.isNumber && (number b).isNumber) = false := by
    rw [hleft, Bool.false_and]
  have hneutral := (neutral_of_not_isNumber hop hleft).1
  fun_cases reduceRight op left b type with
  | case1 hsum => exact .left (by simp [neutralRight, hsum]) hneutral hnumbers
  | case2 _ hmul => exact .left (by simp [neutralRight, hmul]) hneutral hnumbers
  | case3 _ _ hzero => exact .absorbed 0 (by simp_all [absorbs, absorbsLeft]) hnumbers
  | case4 _ _ _ hpow => exact .absorbed 1 (by simp_all [absorbs, absorbsLeft]) hnumbers
  | case5 hsum hmul hzero hpow =>
    apply Rule.kept
    rw [reducible, hnumbers, hneutral, turnsRight_of_not_isNumber hleft, absorbs,
      absorbsRight_of_not_isNumber hleft]
    simp_all [neutralRight, absorbsLeft]

/-- The rule by which a binary operation is reduced. -/
theorem rule_reduceBinary (op : Op) (left right : Node) (type : Ty) :
    Rule op left right type (reduceBinary op left right type) := by
  unfold reduceBinary
  split_ifs with hop
  · subst hop
    exact rule_reduceDisjunction left right type
  · split
    · next a b =>
      split
      · next c hfold => exact .folded rfl rfl hfold
      · next hfold => exact .kept (by simp [reducible, isNumber, folds, hfold])
    · next hright => exact rule_reduceLeft hop _ type (isNumber_eq_false hright)
    · next hleft => exact rule_reduceRight hop _ type (isNumber_eq_false hleft)
    · next hleft hright _ =>
      have hl := isNumber_eq_false hleft
      have hr := isNumber_eq_false hright
      apply Rule.kept
      rw [reducible, hl, (neutral_of_not_isNumber hop hl).1, (neutral_of_not_isNumber hop hr).2,
        turnsRight_of_not_isNumber hl, absorbs, absorbsRight_of_not_isNumber hl,
        absorbsLeft_of_not_isNumber hr]
      rfl

/-- An operation to which no rule applies stays. -/
theorem reduceBinary_of_not_reducible {op : Op} {left right : Node} (type : Ty)
    (h : reducible op left right = false) :
    reduceBinary op left right type = binary op left right type := by
  unfold reducible at h
  generalize hresult : reduceBinary op left right type = n
  have hrule := rule_reduceBinary op left right type
  rw [hresult] at hrule
  cases hrule with
  | folded hleft hright hfold =>
    subst hleft
    subst hright
    simp [isNumber, folds, hfold] at h
  | right hneutral hnumber => simp [hnumber, hneutral] at h
  | left hneutral _ hnumber => simp [hnumber, hneutral] at h
  | turned hturns hnumber => simp [hnumber, hturns] at h
  | absorbed k habsorbs hnumber => simp [hnumber, habsorbs] at h
  | kept => rfl

end Node

end Squishc
