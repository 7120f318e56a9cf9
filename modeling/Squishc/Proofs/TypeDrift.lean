import Squishc.Compile
import Squishc.Proofs.OptimizeScope
import Squishc.Proofs.RuleChoice
import Squishc.Proofs.TypeRules

/-!
# Types of optimized expressions

A literal has the type of its kind, and an operand that takes the place of an
operation brings its own type along.  So optimizing may change the type of an
expression, though not in any way: a number may become a literal of the other
kind, and a number or a truth value may become a value about which nothing is
known.  Strings, arrays and values about which nothing is known stay what they
are.

The type of a collection decides how a loop over it is written in JavaScript, so
a loop over an integer may come out in another form than its own.

Main results:

- Theorem `drifts_optimize`: what the type of an expression can become.
- Theorem `type_optimize_iff`: the expressions that keep their types.
- Theorem `loops_optimize`: the loops over collections in an optimized tree.
- Theorem `optimize_type_drift`: both for resolved programs, with the form of
  their loops.
-/

namespace Squishc

/-! ## Types of operations -/

namespace Ty

/-- The types of numbers and truth values. -/
def isScalar : Ty → Bool
  | int | float | boolean => true
  | _ => false

theorem isScalar_of_isNumeric {t : Ty} (h : t.isNumeric = true) : t.isScalar = true := by
  cases t with
  | int | float => rfl
  | _ => cases h

theorem compatible_comm (a b : Ty) : a.compatible b = b.compatible a := by
  induction a generalizing b with
  | array element ih =>
    cases b with
    | array other => exact ih other
    | _ => rfl
  | _ => cases b <;> rfl

/-- Only the unknown type goes with another scalar type than itself. -/
theorem eq_or_any_of_compatible {a b : Ty} (ha : a.isScalar = true)
    (h : a.compatible b = true) : b = a ∨ b = .any := by
  cases a with
  | int | float | boolean => cases b <;> simp [compatible, same] at h ⊢
  | _ => cases ha

end Ty

namespace Op

variable {op : Op} {left right : Ty}

theorem compatible_of_accepts (hop : op.givesTruth = false) (h : op.accepts left right = true) :
    left.compatible right = true := by
  rw [givesTruth, Bool.or_eq_false_iff] at hop
  rw [accepts, hop.1, hop.2] at h
  by_cases hadd : op = .add
  · rw [if_neg Bool.false_ne_true, if_neg Bool.false_ne_true, if_pos hadd, Bool.and_eq_true] at h
    exact h.2
  · rw [if_neg Bool.false_ne_true, if_neg Bool.false_ne_true, if_neg hadd, Bool.and_eq_true,
      Bool.and_eq_true] at h
    exact h.2.2

/-- An arithmetic operation on a number has the type of that number, and the right
operand goes with it. -/
theorem resultType_of_left (hop : op.givesTruth = false) (h : op.accepts left right = true)
    (hleft : left.isNumeric = true) :
    op.resultType left right = left ∧ (right = left ∨ right = .any) := by
  constructor
  · rw [resultType, hop]
    cases left with
    | int | float => rfl
    | _ => cases hleft
  · exact Ty.eq_or_any_of_compatible (Ty.isScalar_of_isNumeric hleft) (compatible_of_accepts hop h)

theorem resultType_of_right (hop : op.givesTruth = false) (h : op.accepts left right = true)
    (hright : right.isNumeric = true) :
    op.resultType left right = right ∧ (left = right ∨ left = .any) := by
  have hcompatible := compatible_of_accepts hop h
  rw [Ty.compatible_comm] at hcompatible
  have hor := Ty.eq_or_any_of_compatible (Ty.isScalar_of_isNumeric hright) hcompatible
  refine ⟨?_, hor⟩
  rw [resultType, hop]
  rcases hor with rfl | rfl
  · cases left <;> rfl
  · rfl

/-- The operands of a disjunction are truth values. -/
theorem accepts_disj (h : Op.disj.accepts left right = true) :
    (left = .boolean ∨ left = .any) ∧ (right = .boolean ∨ right = .any) := by
  have hand : (left.compatible .boolean && right.compatible .boolean) = true := h
  rw [Bool.and_eq_true, Ty.compatible_comm, Ty.compatible_comm right] at hand
  exact ⟨Ty.eq_or_any_of_compatible rfl hand.1, Ty.eq_or_any_of_compatible rfl hand.2⟩

end Op

namespace Node

/-! ## What a type can become -/

/-- The optimized form of an expression of the given type: it has that type, it is a
literal in the place of a number, or nothing is known about it any more. -/
inductive Drifts (type : Ty) : Node → Prop where
  | kept {m : Node} (htype : m.type = type) : Drifts type m
  | literal (a : Num) (hnumeric : type.isNumeric = true) : Drifts type (number a)
  | unknown {m : Node} (hany : m.type = .any) (hscalar : type.isScalar = true) : Drifts type m

section Drifts

variable {type : Ty} {m : Node}

theorem isNumeric_type_number (a : Num) : (number a).type.isNumeric = true := by
  cases a <;> rfl

theorem Drifts.isNumeric {a : Num} (h : Drifts type (number a)) : type.isNumeric = true := by
  cases h with
  | kept htype => exact htype ▸ isNumeric_type_number a
  | literal _ hnumeric => exact hnumeric
  | unknown hany _ => cases a <;> cases hany

/-- What is unknown stays unknown. -/
theorem Drifts.type_eq_any (h : Drifts .any m) : m.type = .any := by
  cases h with
  | kept htype => exact htype
  | literal _ hnumeric => cases hnumeric
  | unknown hany _ => exact hany

/-- An operand that goes with a scalar type may stand for an operation of that
type. -/
theorem Drifts.stand_in {t : Ty} (h : Drifts t m) (ht : t = type ∨ t = .any)
    (hscalar : type.isScalar = true) : Drifts type m := by
  rcases ht with rfl | rfl
  · exact h
  · exact .unknown h.type_eq_any hscalar

/-- Such an operand keeps the type if it had it and kept it. -/
theorem Drifts.type_eq_iff {t : Ty} (h : Drifts t m) (ht : t = type ∨ t = .any) :
    m.type = type ↔ t = type ∧ m.type = t := by
  rcases ht with rfl | rfl
  · exact (and_iff_right rfl).symm
  · rw [h.type_eq_any]
    exact (and_iff_left rfl).symm

end Drifts

/-! ## Operations -/

section Operations

variable {op : Op} {left right m : Node} {leftType rightType : Ty}

/-- An operation beside a neutral left operand has a scalar type, and the right
operand goes with it. -/
theorem resultType_of_neutralLeft (hneutral : left.neutralLeft op = true)
    (hleft : Drifts leftType left) (haccepts : op.accepts leftType rightType = true) :
    (op.resultType leftType rightType).isScalar = true ∧
      (rightType = op.resultType leftType rightType ∨ rightType = .any) := by
  cases left with
  | number a =>
    have hop : op.givesTruth = false := by
      simp only [neutralLeft, Bool.or_eq_true, Bool.and_eq_true, decide_eq_true_eq] at hneutral
      rcases hneutral with ⟨-, rfl⟩ | ⟨-, rfl⟩ <;> rfl
    have hresult := Op.resultType_of_left hop haccepts hleft.isNumeric
    rw [hresult.1]
    exact ⟨Ty.isScalar_of_isNumeric hleft.isNumeric, hresult.2⟩
  | bool b =>
    simp only [neutralLeft, Bool.and_eq_true, decide_eq_true_eq] at hneutral
    rcases hneutral with ⟨-, rfl⟩
    exact ⟨rfl, (Op.accepts_disj haccepts).2⟩
  | _ => cases hneutral

theorem resultType_of_neutralRight (hneutral : right.neutralRight op = true)
    (hright : Drifts rightType right) (haccepts : op.accepts leftType rightType = true) :
    (op.resultType leftType rightType).isScalar = true ∧
      (leftType = op.resultType leftType rightType ∨ leftType = .any) := by
  cases right with
  | number b =>
    have hop : op.givesTruth = false := by
      simp only [neutralRight, Bool.or_eq_true, Bool.and_eq_true, decide_eq_true_eq] at hneutral
      rcases hneutral with ⟨-, rfl | rfl⟩ | ⟨-, rfl | rfl⟩ <;> rfl
    have hresult := Op.resultType_of_right hop haccepts hright.isNumeric
    rw [hresult.1]
    exact ⟨Ty.isScalar_of_isNumeric hright.isNumeric, hresult.2⟩
  | bool b =>
    simp only [neutralRight, Bool.and_eq_true, decide_eq_true_eq] at hneutral
    rcases hneutral with ⟨-, rfl⟩
    exact ⟨rfl, (Op.accepts_disj haccepts).1⟩
  | _ => cases hneutral

/-- An operation that is known from one operand is a number. -/
theorem resultType_of_absorbs (habsorbs : absorbs op left right = true)
    (hleft : Drifts leftType left) (hright : Drifts rightType right)
    (haccepts : op.accepts leftType rightType = true) :
    (op.resultType leftType rightType).isNumeric = true := by
  rw [absorbs, Bool.or_eq_true] at habsorbs
  rcases habsorbs with habsorbs | habsorbs
  · cases left with
    | number a =>
      have hop : op.givesTruth = false := by
        simp only [absorbsRight, Bool.or_eq_true, Bool.and_eq_true, decide_eq_true_eq] at habsorbs
        rcases habsorbs with ⟨-, rfl | rfl⟩ | ⟨-, rfl⟩ <;> rfl
      rw [(Op.resultType_of_left hop haccepts hleft.isNumeric).1]
      exact hleft.isNumeric
    | _ => cases habsorbs
  · cases right with
    | number b =>
      have hop : op.givesTruth = false := by
        simp only [absorbsLeft, Bool.or_eq_true, Bool.and_eq_true, decide_eq_true_eq] at habsorbs
        rcases habsorbs with ⟨-, rfl | rfl⟩ <;> rfl
      rw [(Op.resultType_of_right hop haccepts hright.isNumeric).1]
      exact hright.isNumeric
    | _ => cases habsorbs

/-- What two numbers are folded to is a number if the operation is one. -/
theorem fold_givesTruth {a b : Num} {c : Constant} (hfold : Num.fold op a b = some c) :
    (op.givesTruth = true ∧ ∃ value, c = .truth value) ∨
      (op.givesTruth = false ∧ ∃ value, c = .number value) := by
  cases op with
  | add | sub | mul | div | mod =>
    rcases Option.map_eq_some_iff.mp hfold with ⟨value, -, rfl⟩
    exact .inr ⟨rfl, value, rfl⟩
  | pow =>
    rw [Num.fold] at hfold
    split at hfold
    · rcases Option.map_eq_some_iff.mp hfold with ⟨value, -, rfl⟩
      exact .inr ⟨rfl, value, rfl⟩
    · cases hfold
  | lt | le | eq | ne | ge | gt =>
    cases hfold
    exact .inl ⟨rfl, _, rfl⟩
  | conj | disj | not | other _ => cases hfold

theorem drifts_ofConstant {a b : Num} {c : Constant} (hfold : Num.fold op a b = some c)
    (hleft : Drifts leftType (number a)) (haccepts : op.accepts leftType rightType = true) :
    Drifts (op.resultType leftType rightType) (ofConstant c) := by
  rcases fold_givesTruth hfold with ⟨hop, value, rfl⟩ | ⟨hop, value, rfl⟩
  · apply Drifts.kept
    rw [Op.resultType, hop]
    rfl
  · apply Drifts.literal
    rw [(Op.resultType_of_left hop haccepts hleft.isNumeric).1]
    exact hleft.isNumeric

/-- What the type of an operation can become when it is reduced. -/
theorem Rule.drifts (h : Rule op left right (op.resultType leftType rightType) m)
    (hleft : Drifts leftType left) (hright : Drifts rightType right)
    (haccepts : op.accepts leftType rightType = true) :
    Drifts (op.resultType leftType rightType) m := by
  cases h with
  | folded hl hr hfold =>
    subst hl
    exact drifts_ofConstant hfold hleft haccepts
  | right hneutral hnumber =>
    -- The operand goes with the type of the operation, but it may be of unknown type.
    have hresult := resultType_of_neutralLeft hneutral hleft haccepts
    exact hright.stand_in hresult.2 hresult.1
  | left hneutral _ hnumber =>
    have hresult := resultType_of_neutralRight hneutral hright haccepts
    exact hleft.stand_in hresult.2 hresult.1
  | turned => exact .kept rfl
  | absorbed k habsorbs => exact .literal _ (resultType_of_absorbs habsorbs hleft hright haccepts)
  | kept => exact .kept rfl

end Operations

/-- What the type of an expression can become. -/
theorem drifts_optimize : ∀ e : Node, e.isExpr = true → e.Typed → Drifts e.type e.optimize
  | bool _, _, _ | number _, _, _ | var _, _, _ | string _ _, _, _ => .kept rfl
  | array _ _, _, _ | index _ _ _, _, _ | call _ _ _, _, _ | conditional _ _ _ _, _, _ => .kept rfl
  | unary op operand type, h, ht => by
    rw [optimize_unary]
    have hoperand := drifts_optimize operand h ht.1
    generalize hn : reduceUnary op operand.optimize type = n
    have hreduction := unaryReduction_reduceUnary op operand.optimize type
    rw [hn] at hreduction
    cases hreduction with
    | number a hop hnumber =>
      rw [hnumber] at hoperand
      rcases ht.2 with ⟨hnot, -, -⟩ | ⟨-, -, htype⟩
      · rw [hop] at hnot
        cases hnot
      · exact .literal _ (htype ▸ hoperand.isNumeric)
    | bool b hop hbool =>
      rcases ht.2 with ⟨-, -, htype⟩ | ⟨hsub, -, -⟩
      · exact .kept htype.symm
      · rw [hop] at hsub
        cases hsub
    | kept => exact .kept rfl
  | binary op left right type, h, ht => by
    simp only [isExpr, Bool.and_eq_true] at h
    rcases ht with ⟨hl, hr, haccepts, rfl⟩
    rw [optimize_binary]
    exact (rule_reduceBinary op left.optimize right.optimize _).drifts
      (drifts_optimize left h.1 hl) (drifts_optimize right h.2 hr) haccepts

/-! ## Expressions that keep their types -/

/-- Whether the value that two numbers are folded to, if any, has the given type. -/
def foldKeeps (op : Op) (type : Ty) : Node → Node → Bool
  | number a, number b =>
    match Num.fold op a b with
    | some c => (ofConstant c).type = type
    | none => true
  | _, _ => true

/-- Whether an operation keeps its type, given its optimized operands and whether
each operand could stand for it. -/
def keepsTypeBy (op : Op) (left right : Node) (type : Ty) (keptLeft keptRight : Bool) : Bool :=
  if left.isNumber && right.isNumber then foldKeeps op type left right
  else if left.neutralLeft op then keptRight
  else if right.neutralRight op then keptLeft
  else !absorbs op left right || type = .int

/-- Whether an expression keeps its type when it is optimized.  A folded value must
be of the right kind, an operand that takes the place of an operation must have the
type of the operation and keep it, and an absorbing number must stand for an
integer. -/
def keepsType : Node → Bool
  | unary op operand _ => !(op = .sub && operand.optimize.isNumber) || operand.keepsType
  | binary op left right type =>
    keepsTypeBy op left.optimize right.optimize type (left.type = type && left.keepsType)
      (right.type = type && right.keepsType)
  | _ => true

theorem keepsTypeBy_of_not_reducible {op : Op} {left right : Node} {type : Ty}
    {keptLeft keptRight : Bool} (h : reducible op left right = false) :
    keepsTypeBy op left right type keptLeft keptRight = true := by
  unfold keepsTypeBy
  split_ifs with hnumbers hneutral hneutral'
  · rw [reducible, if_pos hnumbers] at h
    rw [Bool.and_eq_true] at hnumbers
    rcases eq_number_of_isNumber hnumbers.1 with ⟨a, rfl⟩
    rcases eq_number_of_isNumber hnumbers.2 with ⟨b, rfl⟩
    rw [folds, Option.isSome_eq_false_iff, Option.isNone_iff_eq_none] at h
    rw [foldKeeps, h]
  · rw [reducible, if_neg hnumbers, hneutral] at h
    cases h
  · rw [reducible, if_neg hnumbers, hneutral', Bool.or_true] at h
    cases h
  · rw [absorbs_of_not_reducible h (Bool.eq_false_iff.mpr hnumbers)]
    rfl

/-- The operations that keep their types when they are reduced. -/
theorem Rule.type_eq_iff {op : Op} {left right m : Node} {leftType rightType : Ty}
    (h : Rule op left right (op.resultType leftType rightType) m) (hleft : Drifts leftType left)
    (hright : Drifts rightType right) (haccepts : op.accepts leftType rightType = true) :
    m.type = op.resultType leftType rightType ↔
      keepsTypeBy op left right (op.resultType leftType rightType)
        (leftType = op.resultType leftType rightType && left.type = leftType)
        (rightType = op.resultType leftType rightType && right.type = rightType) = true := by
  cases h with
  | folded hl hr hfold =>
    subst hl
    subst hr
    simp [keepsTypeBy, isNumber, foldKeeps, hfold]
  | right hneutral hnumber =>
    have hresult := resultType_of_neutralLeft hneutral hleft haccepts
    rw [hright.type_eq_iff hresult.2]
    simp [keepsTypeBy, hnumber, hneutral]
  | left hneutral hother hnumber =>
    have hresult := resultType_of_neutralRight hneutral hright haccepts
    rw [hleft.type_eq_iff hresult.2]
    simp [keepsTypeBy, hnumber, hneutral, hother]
  | turned hturns hnumber =>
    have hneutral := neutral_of_turnsRight hturns hnumber
    simp [keepsTypeBy, hnumber, hneutral, absorbs_of_turnsRight hturns, type, type?]
  | absorbed k habsorbs hnumber =>
    have hneutral := neutral_of_absorbs habsorbs hnumber
    simp [keepsTypeBy, hnumber, hneutral, habsorbs, type, type?, eq_comm]
  | kept hirreducible =>
    rw [keepsTypeBy_of_not_reducible hirreducible]
    exact ⟨fun _ => rfl, fun _ => rfl⟩

theorem UnaryReduction.type_eq_iff {op : Op} {operand m : Node} {operandType type : Ty}
    (h : UnaryReduction op operand type m) (hgoes : OperandGoes op operandType type) :
    m.type = type ↔
      (!(op = .sub && operand.isNumber) || decide (operand.type = operandType)) = true := by
  cases h with
  | number a hop hoperand =>
    subst hop
    subst hoperand
    rcases hgoes with ⟨hnot, -, -⟩ | ⟨-, -, rfl⟩
    · cases hnot
    · have hneg : (Node.number a.neg).type = (Node.number a).type := by cases a <;> rfl
      rw [hneg]
      simp [isNumber]
  | bool b hop hoperand =>
    subst hop
    rcases hgoes with ⟨-, -, rfl⟩ | ⟨hsub, -, -⟩
    · simp [Node.type, type?]
    · cases hsub
  | kept hnumber =>
    have hfalse : (op = .sub && operand.isNumber) = false := by
      rw [← Bool.not_eq_true, Bool.and_eq_true, decide_eq_true_eq]
      rintro ⟨hop, hoperand⟩
      rcases eq_number_of_isNumber hoperand with ⟨a, ha⟩
      exact hnumber a hop ha
    rw [hfalse]
    exact ⟨fun _ => rfl, fun _ => rfl⟩

/-- The expressions that keep their types. -/
theorem type_optimize_iff : ∀ e : Node, e.isExpr = true → e.Typed →
    (e.optimize.type = e.type ↔ e.keepsType = true)
  | bool _, _, _ | number _, _, _ | var _, _, _ | string _ _, _, _ => ⟨fun _ => rfl, fun _ => rfl⟩
  | array _ _, _, _ | index _ _ _, _, _ | call _ _ _, _, _ | conditional _ _ _ _, _, _ =>
    ⟨fun _ => rfl, fun _ => rfl⟩
  | unary op operand type, h, ht => by
    have hoperand := type_optimize_iff operand h ht.1
    have hunary := (unaryReduction_reduceUnary op operand.optimize type).type_eq_iff ht.2
    rw [optimize_unary]
    refine hunary.trans ?_
    rw [keepsType, Bool.or_eq_true, Bool.or_eq_true, decide_eq_true_eq, hoperand]
  | binary op left right type, h, ht => by
    simp only [isExpr, Bool.and_eq_true] at h
    rcases ht with ⟨hl, hr, haccepts, rfl⟩
    have hleft : decide (left.optimize.type = left.type) = left.keepsType := by
      rw [Bool.eq_iff_iff, decide_eq_true_eq, type_optimize_iff left h.1 hl]
    have hright : decide (right.optimize.type = right.type) = right.keepsType := by
      rw [Bool.eq_iff_iff, decide_eq_true_eq, type_optimize_iff right h.2 hr]
    have hbinary := (rule_reduceBinary op left.optimize right.optimize _).type_eq_iff
      (drifts_optimize left h.1 hl) (drifts_optimize right h.2 hr) haccepts
    rw [hleft, hright] at hbinary
    rw [optimize_binary]
    exact hbinary

/-! ## Loops over collections -/

mutual

/-- The loops over collections in a statement, outside functions, each given by its
iterator and its collection. -/
def loops : Node → List (Variable × Node)
  | shortIf _ consequence => loopsIn consequence
  | ifElse _ consequence alternate => loopsIn consequence ++ alternate.loops
  | list items => loopsIn items
  | program statements => loopsIn statements
  | whileLoop _ body => loopsIn body
  | forLoop _ _ _ body _ => loopsIn body
  | forEach iterator collection body => (iterator, collection) :: loopsIn body
  | _ => []

/-- The loops over collections in some statements. -/
def loopsIn : List Node → List (Variable × Node)
  | [] => []
  | n :: rest => n.loops ++ loopsIn rest

end

/-- A loop over the optimized collection. -/
def optimizeLoop (loop : Variable × Node) : Variable × Node := (loop.1, loop.2.optimize)

theorem loopsIn_append (ns ms : List Node) : loopsIn (ns ++ ms) = loopsIn ns ++ loopsIn ms := by
  induction ns with
  | nil => rfl
  | cons n rest ih => simp [loopsIn, ih]

theorem loopsIn_spread (n : Node) : loopsIn n.spread = n.loops := by
  cases n with
  | list items => rfl
  | _ => simp [spread, loopsIn]

/-- The rounds of a loop have no loops but those of its body. -/
theorem loopsIn_roundsOf (c : Count) (body : List Node) :
    loopsIn (roundsOf c body) ⊆ loopsIn body := by
  unfold roundsOf
  induction List.range c.rounds with
  | nil => exact List.nil_subset _
  | cons round rest ih =>
    rw [List.flatMap_cons, loopsIn_append]
    exact List.append_subset.mpr ⟨List.Subset.refl _, ih⟩

theorem loops_unroll (declaration test increment : Node) (body : List Node) :
    (unroll declaration test increment body).loops ⊆ loopsIn body := by
  unfold unroll
  split
  · split
    · exact loopsIn_roundsOf _ body
    · exact List.Subset.refl _
  · exact List.Subset.refl _

mutual

/-- The loops over collections in an optimized tree are those of the tree, each over
the optimized collection. -/
theorem loops_optimize : ∀ n : Node, n.formed = true →
    n.optimize.loops ⊆ n.loops.map optimizeLoop
  | shortIf _ consequence, h => by
    simp only [formed, Bool.and_eq_true] at h
    rw [optimize_shortIf]
    exact loopsIn_optimizeStmts consequence h.2
  | ifElse _ consequence alternate, h => by
    simp only [formed, Bool.and_eq_true] at h
    rw [optimize_ifElse, loops, loops, List.map_append]
    exact append_subset_append (loopsIn_optimizeStmts consequence h.2.1)
      (loops_optimize alternate h.2.2.2)
  | list items, h => by
    rw [optimize_list]
    exact loopsIn_optimizeStmts items h
  | whileLoop _ body, h => by
    simp only [formed, Bool.and_eq_true] at h
    rw [optimize_whileLoop, reduceWhile]
    split
    · exact List.nil_subset _
    · exact loopsIn_optimizeStmts body h.2
  | forLoop _ _ _ body true, h => by
    simp only [formed, Bool.and_eq_true] at h
    rw [optimize_unrolled]
    exact loopsIn_optimizeStmts body h.2.2.2
  | forLoop _ _ _ body false, h => by
    simp only [formed, Bool.and_eq_true] at h
    rw [optimize_forLoop]
    exact List.Subset.trans (loops_unroll ..) (loopsIn_optimizeStmts body h.2.2.2)
  | forEach iterator collection body, h => by
    simp only [formed, Bool.and_eq_true] at h
    rw [optimize_forEach, reduceForEach]
    split
    · exact List.nil_subset _
    · exact List.cons_subset_cons _ (loopsIn_optimizeStmts body h.2)
  | assign target source, _ => by
    rw [optimize_assign, reduceAssign]
    split <;> exact List.nil_subset _
  | print _, _ | declare _ _, _ | define _ _, _ | call _ _ _, _ | ret _, _ | exit, _
  | shortRet, _ => List.nil_subset _

theorem loopsIn_optimizeStmts : ∀ ns : List Node, allFormed ns = true →
    loopsIn (optimizeStmts ns) ⊆ (loopsIn ns).map optimizeLoop
  | [], _ => List.nil_subset _
  | n :: rest, h => by
    simp only [allFormed, Bool.and_eq_true] at h
    rw [optimizeStmts_cons, loopsIn_append, loopsIn_spread, loopsIn, List.map_append]
    exact append_subset_append (loops_optimize n h.1.2) (loopsIn_optimizeStmts rest h.2)

end

/-- What is true of the collection of a loop. -/
def Iterable (e : Node) : Prop :=
  e.isExpr = true ∧ e.Typed ∧ (Resolve.itemType? e.type).isSome = true

mutual

theorem iterable_of_mem_loops : ∀ n : Node, n.formed = true → n.Typed →
    ∀ loop ∈ n.loops, loop.2.Iterable
  | shortIf _ consequence, h, ht => by
    simp only [formed, Bool.and_eq_true] at h
    exact iterable_of_mem_loopsIn consequence h.2 ht.2
  | ifElse _ consequence alternate, h, ht => by
    simp only [formed, Bool.and_eq_true] at h
    intro loop hloop
    rcases List.mem_append.mp hloop with hloop | hloop
    · exact iterable_of_mem_loopsIn consequence h.2.1 ht.2.1 loop hloop
    · exact iterable_of_mem_loops alternate h.2.2.2 ht.2.2 loop hloop
  | list items, h, ht => iterable_of_mem_loopsIn items h ht
  | whileLoop _ body, h, ht => by
    simp only [formed, Bool.and_eq_true] at h
    exact iterable_of_mem_loopsIn body h.2 ht.2
  | forLoop _ _ _ body _, h, ht => by
    simp only [formed, Bool.and_eq_true] at h
    exact iterable_of_mem_loopsIn body h.2.2.2 ht.2.2.2
  | forEach iterator collection body, h, ht => by
    simp only [formed, Bool.and_eq_true] at h
    intro loop hloop
    rcases List.mem_cons.mp hloop with rfl | hloop
    · exact ⟨h.1, ht.1, by rw [ht.2.1]; rfl⟩
    · exact iterable_of_mem_loopsIn body h.2 ht.2.2 loop hloop
  | assign _ _, _, _ | print _, _, _ | declare _ _, _, _ | define _ _, _, _ | call _ _ _, _, _
  | ret _, _, _ | exit, _, _ | shortRet, _, _ => fun _ hloop => by cases hloop

theorem iterable_of_mem_loopsIn : ∀ ns : List Node, allFormed ns = true → TypedAll ns →
    ∀ loop ∈ loopsIn ns, loop.2.Iterable
  | [], _, _ => fun _ hloop => by cases hloop
  | n :: rest, h, ht => by
    simp only [allFormed, Bool.and_eq_true] at h
    intro loop hloop
    rcases List.mem_append.mp hloop with hloop | hloop
    · exact iterable_of_mem_loops n h.1.2 ht.1 loop hloop
    · exact iterable_of_mem_loopsIn rest h.2 ht.2 loop hloop

end

end Node

/-! ## The form of a loop -/

/-- The ways to write a loop over a collection in JavaScript. -/
inductive LoopForm where
  /-- Counts up to a bound. -/
  | counted
  /-- Leaves it to a helper to tell numbers from collections. -/
  | helped
  /-- Runs over the items of the collection itself. -/
  | plain
deriving DecidableEq, Repr, Inhabited

/-- The form that the type of a collection calls for. -/
def Ty.loopForm : Ty → LoopForm
  | int => .counted
  | any => .helped
  | _ => .plain

/-- The form of a loop in JavaScript. -/
def Js.Stmt.loopForm? : Js.Stmt → Option LoopForm
  | countUp _ _ _ | countTo _ _ _ _ => some .counted
  | forOf _ _ helped _ => some (if helped then .helped else .plain)
  | _ => none

theorem Js.loopForm?_lowerLoop (item : Js.Name) (collection : Node) (e : Js.Expr)
    (naming : Js.Naming) (body : List Js.Stmt) :
    ((Js.lowerLoop item collection e naming).1 body).loopForm? =
      some collection.type.loopForm := by
  unfold Js.lowerLoop
  cases collection.type with
  | int => cases Js.isIntLiteral collection <;> rfl
  | _ => rfl

/-- A loop is written in the form that the type of its collection calls for. -/
theorem Js.loopForm?_lowerStmt (inBranch : Bool) (iterator : Variable) (collection : Node)
    (body : List Node) (naming : Js.Naming) :
    (Js.lowerStmt inBranch (.forEach iterator collection body) naming).1.map Js.Stmt.loopForm? =
      [some collection.type.loopForm] := by
  simp only [Js.lowerStmt, List.map_cons, List.map_nil, Js.loopForm?_lowerLoop]

theorem Node.Drifts.loopForm_iff {type : Ty} {m : Node} (h : Node.Drifts type m)
    (hitem : (Resolve.itemType? type).isSome = true) :
    m.type.loopForm = type.loopForm ↔ m.type = type := by
  constructor
  · intro hform
    cases h with
    | kept htype => exact htype
    | literal a hnumeric =>
      cases type with
      | int => cases a with
        | int n => rfl
        | float x => cases hform
      | float => cases hitem
      | _ => cases hnumeric
    | unknown hany hscalar =>
      rw [hany] at hform
      cases type with
      | int => cases hform
      | float | boolean => cases hitem
      | _ => cases hscalar
  · intro htype
    rw [htype]

/-- A collection calls for the form of its own type after it was optimized if and
only if it keeps its type. -/
theorem Node.Iterable.loopForm_iff {e : Node} (h : e.Iterable) :
    e.optimize.type.loopForm = e.type.loopForm ↔ e.keepsType = true := by
  rcases h with ⟨hexpr, htyped, hitem⟩
  rw [(Node.drifts_optimize e hexpr htyped).loopForm_iff hitem]
  exact Node.type_optimize_iff e hexpr htyped

/-! ## Resolved programs -/

/-- Outside functions, an expression can be optimized, its type can only become that
of a literal number or the unknown one, and it stays the same if and only if the
expression keeps its type.  Accordingly, the loops over collections in an optimized
program are loops of the program, and each is written in the form that the type of
its collection called for if and only if the collection keeps that type. -/
theorem optimize_type_drift {chain : Chain} {e : Surface.Expr} {n : Node}
    (hstrict : Resolve.isStrict chain = true) (hn : Resolve.expr chain e = .ok n)
    {p : Surface.Program} {t : Node} (ht : resolve p = .ok t) :
    (∃ m, optimize n = .ok m ∧ Node.Drifts n.type m ∧ (m.type = n.type ↔ n.keepsType = true)) ∧
    ∃ q, optimize t = .ok q ∧ ∀ v m, (v, m) ∈ q.loops →
      ∃ collection, (v, collection) ∈ t.loops ∧ optimize collection = .ok m ∧
        ∀ inBranch body naming,
          (Js.lowerStmt inBranch (.forEach v m body) naming).1.map Js.Stmt.loopForm? =
              [some collection.type.loopForm] ↔
            collection.keepsType = true := by
  constructor
  · have hexpr : n.isExpr = true := ((Resolve.expr_settled chain e).ok hn).1
    have htyped : n.Typed := (Resolve.expr_typed hstrict e).ok hn
    refine ⟨n.optimize, ?_, Node.drifts_optimize n hexpr htyped,
      Node.type_optimize_iff n hexpr htyped⟩
    rw [optimize, Node.obstacle?_of_isExpr hexpr]
  · rcases resolve_settled ht with ⟨nodes, rfl, hformed, -, -⟩
    refine ⟨(Node.program nodes).optimize, ?_, ?_⟩
    · have hobstacle : (Node.program nodes).obstacle? = none :=
        Node.anyObstacle?_of_allFormed hformed
      rw [optimize, hobstacle]
    · intro v m hm
      rw [Node.optimize_program] at hm
      have hloop := Node.loopsIn_optimizeStmts nodes hformed hm
      rcases List.mem_map.mp hloop with ⟨⟨w, collection⟩, hmem, heq⟩
      cases heq
      have hiterable := Node.iterable_of_mem_loopsIn nodes hformed (resolve_typed ht) _ hmem
      refine ⟨collection, hmem, ?_, ?_⟩
      · rw [optimize, Node.obstacle?_of_isExpr hiterable.1]
      · intro inBranch body naming
        rw [Js.loopForm?_lowerStmt, ← hiterable.loopForm_iff]
        simp

/-- One divided by two. -/
def half : Surface.Expr := .binary ⟨1, 2⟩ .div (.int ⟨1, 2⟩ 1) (.int ⟨1, 6⟩ 2)

/-- A loop over one divided by two, behind a loop over two numbers. -/
def halfLoops : Surface.Program :=
  ⟨[.forEach ⟨1, 1⟩ (.array ⟨1, 1⟩ [half, half]) "x" [.print ⟨1, 25⟩ (.var ⟨1, 31⟩ "x")],
    .forEach ⟨2, 1⟩ half "i" [.print ⟨2, 17⟩ (.var ⟨2, 23⟩ "i")]]⟩

theorem halfLoops_type_drift :
    ∃ n t, Resolve.expr [.root] half = .ok n ∧ n.type = .int ∧ resolve halfLoops = .ok t ∧
      (∃ m, optimize n = .ok m ∧ Node.Drifts n.type m ∧ m.type ≠ n.type) ∧
      ∃ q, optimize t = .ok q ∧ ∀ v m, (v, m) ∈ q.loops →
        ∃ collection, (v, collection) ∈ t.loops ∧ optimize collection = .ok m ∧
          ∀ inBranch body naming,
            (Js.lowerStmt inBranch (.forEach v m body) naming).1.map Js.Stmt.loopForm? =
                [some collection.type.loopForm] ↔
              collection.keepsType = true := by
  have hresolved : ∃ n t, Resolve.expr [.root] half = .ok n ∧ n.type = .int ∧
      n.keepsType = false ∧ resolve halfLoops = .ok t := ⟨_, _, rfl, rfl, rfl, rfl⟩
  rcases hresolved with ⟨n, t, hn, htype, hkeeps, ht⟩
  rcases optimize_type_drift rfl hn ht with ⟨⟨m, hm, hdrifts, hiff⟩, hloops⟩
  refine ⟨n, t, hn, htype, ht, ⟨m, hm, hdrifts, ?_⟩, hloops⟩
  rw [Ne, hiff, hkeeps]
  exact Bool.false_ne_true

/-- A loop over one divided by two. -/
def halfLoop : Surface.Program :=
  ⟨[.forEach ⟨1, 1⟩ half "i" [.print ⟨1, 17⟩ (.var ⟨1, 23⟩ "i")]]⟩

/-- The collection of that loop is typed as an integer, so the loop should count.  Its
optimized form is a fraction, and the loop runs over the items of that. -/
theorem halfLoop_changes_form :
    ∃ v n m body q, resolve halfLoop = .ok (.program [.forEach v n body]) ∧
      n.type.loopForm = .counted ∧
      optimize (.program [.forEach v n body]) = .ok q ∧ q.loops = [(v, m)] ∧
      m.type = .float ∧ ∀ inBranch naming,
        (Js.lowerStmt inBranch (.forEach v m body) naming).1.map Js.Stmt.loopForm? =
          [some .plain] :=
  ⟨_, _, .number (.float 0.5), _, _, rfl, rfl, rfl, rfl, rfl,
    fun _ _ => Js.loopForm?_lowerStmt _ _ _ _ _⟩

end Squishc
