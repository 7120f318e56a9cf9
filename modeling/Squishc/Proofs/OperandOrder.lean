import Squishc.Proofs.ClosedPipeline
import Squishc.Proofs.TypeDrift

/-!
# The order of operands

Whether an operation is accepted where types are checked depends on the types of its
operands alone.  Truth values are asked of both operands of a connective, numbers of both
operands of a difference or a product, and comparisons only ask that the operands go
together; in all of these the order of the operands is nothing to the rule.

A sum is the exception.  That it is made of numbers or strings is asked of the left
operand, and the right one only has to go with the left.  An unknown type goes with
everything, so something unknown plus a truth value is accepted, and the truth value plus
something unknown is not.

Main results:

- Theorem `binary_accepted_iff`: the types of the operands decide about an operation.
- Theorem `Op.accepts_comm_iff`: the types whose order is minded.
- Theorem `operand_order_verdict`: what becomes of an operation when its operands change
  places.
- Theorem `unknownSum_minds_order`: a sum that is refused the other way round.
-/

namespace Squishc

/-- What may be added: numbers and strings, and what is unknown. -/
def Ty.isAddend (t : Ty) : Bool := t.isNumber || t.compatible .string

theorem Ty.eq_any_of_isAny {t : Ty} (h : t.isAny = true) : t = .any := by
  cases t with
  | any => rfl
  | _ => cases h

namespace Op

/-- A sum of something unknown and something that may not be added. -/
def lopsided (op : Op) (left right : Ty) : Bool :=
  op = .add && ((left.isAny && !right.isAddend) || (right.isAny && !left.isAddend))

/-- Types that go together may both be added or neither, unless one of them is unknown. -/
theorem isAddend_eq_of_compatible {left right : Ty} (h : left.compatible right = true)
    (hleft : left.isAny = false) (hright : right.isAny = false) :
    left.isAddend = right.isAddend := by
  cases left with
  | array element =>
    cases right with
    | array other => rfl
    | any => cases hright
    | _ => cases h
  | any => cases hleft
  | _ =>
    cases right with
    | any => cases hright
    | array _ => cases h
    | _ =>
      revert h
      decide

/-- The order of the operands is minded in lopsided sums only. -/
theorem accepts_comm_iff (op : Op) (left right : Ty) :
    op.accepts left right = op.accepts right left ↔ op.lopsided left right = false := by
  by_cases hadd : op = .add
  · subst hadd
    have hsum : ∀ s t : Ty, accepts .add s t = (s.isAddend && s.compatible t) := fun _ _ => rfl
    have hlopsided : lopsided .add left right =
        ((left.isAny && !right.isAddend) || (right.isAny && !left.isAddend)) := rfl
    rw [hsum, hsum, hlopsided, Ty.compatible_comm right left]
    cases hleft : left.isAny with
    | true =>
      obtain rfl := Ty.eq_any_of_isAny hleft
      cases right <;> simp [Ty.isAddend, Ty.isNumber, Ty.isAny, Ty.compatible, Ty.same]
    | false =>
      cases hright : right.isAny with
      | true =>
        obtain rfl := Ty.eq_any_of_isAny hright
        cases left <;> simp_all [Ty.isAddend, Ty.isNumber, Ty.compatible, Ty.same]
      | false =>
        cases hgo : left.compatible right with
        | true => simp [isAddend_eq_of_compatible hgo hleft hright]
        | false => simp
  · have hlopsided : op.lopsided left right = false := by simp [lopsided, hadd]
    rw [hlopsided, accepts, accepts, Ty.compatible_comm right left, if_neg hadd, if_neg hadd]
    refine iff_of_true ?_ rfl
    split
    · exact Bool.and_comm _ _
    · split
      · rfl
      · exact Bool.and_left_comm _ _ _

end Op

namespace Resolve

theorem require_ok_iff {condition : Bool} {broken : RuleBreak} {pos : Pos} :
    require condition broken pos = .ok () ↔ condition = true := by
  cases condition with
  | true => exact iff_of_true rfl rfl
  | false => exact iff_of_false nofun nofun

theorem require_bind_ok {α : Type} {condition : Bool} {broken : RuleBreak} {pos : Pos}
    {next : Resolved α} {a : α} :
    (require condition broken pos >>= fun _ => next) = .ok a ↔ condition = true ∧ next = .ok a := by
  cases condition with
  | true => exact (and_iff_right rfl).symm
  | false => exact iff_of_false nofun (fun h => nomatch h.1)

theorem checkArithmetic_ok_iff (op : Op) (left right : Node) (leftPos rightPos : Pos) :
    checkArithmetic op left right leftPos rightPos = .ok () ↔
      (if op = .add then left.type.isAddend && left.type.compatible right.type
        else left.type.isNumber && (right.type.isNumber && left.type.compatible right.type)) =
          true := by
  unfold checkArithmetic checkOperands checkNumber
  split
  · rw [require_bind_ok, require_ok_iff, Bool.and_eq_true, Ty.isAddend]
  · rw [require_bind_ok, require_bind_ok, require_ok_iff, Bool.and_eq_true, Bool.and_eq_true]

/-- Nothing but a check can fail before a result that is known. -/
theorem exists_bind_ok {α : Type} (check : Resolved Unit) (a : α) :
    (∃ b, (check >>= fun _ => Except.ok a) = .ok b) ↔ check = .ok () := by
  cases check with
  | ok u => exact iff_of_true ⟨a, rfl⟩ rfl
  | error f => exact iff_of_false (fun ⟨_, h⟩ => nomatch h) nofun

/-- Where types are checked, those of the operands decide about an operation. -/
theorem binary_accepted_iff (op : Op) (left right : Node) (leftPos rightPos : Pos) :
    (∃ n, binary true op left right leftPos rightPos = .ok n) ↔
      op.accepts left.type right.type = true := by
  unfold binary Op.accepts
  split
  · simp only [checkBoolean, require_bind_ok, Bool.not_true, Bool.false_or, Bool.and_eq_true,
      exists_and_left]
    exact and_congr_right fun _ => and_iff_left ⟨_, rfl⟩
  · split
    · exact (exists_bind_ok _ _).trans require_ok_iff
    · exact (exists_bind_ok _ _).trans (checkArithmetic_ok_iff op left right leftPos rightPos)

/-- A sum whose left operand may not be added is refused on account of that operand. -/
theorem binary_add_refused (left right : Node) (leftPos rightPos : Pos)
    (h : left.type.isAddend = false) :
    binary true .add left right leftPos rightPos =
      .error (.rule (.expectedNumberOrString left.type) leftPos) := by
  have hleft : (left.type.isNumber || left.type.compatible .string) = false := h
  simp only [binary, checkArithmetic, require, hleft]
  rfl

theorem expr_binary_strict {chain : Chain} (hstrict : isStrict chain = true) {a b : Surface.Expr}
    {left right : Node} (ha : expr chain a = .ok left) (hb : expr chain b = .ok right) (pos : Pos)
    (op : Op) : expr chain (.binary pos op a b) = binary true op left right a.pos b.pos := by
  rw [expr, ha, hb, hstrict]
  rfl

end Resolve

open Resolve

/-- Where types are checked, two expressions may change places around an operator except
in a sum of something unknown and something that may not be added.  Such a sum is accepted
if the unknown operand stands on the left; if it stands on the right, the other one is
reported. -/
theorem operand_order_verdict {chain : Chain} (hstrict : isStrict chain = true)
    {a b : Surface.Expr} {left right : Node} (ha : expr chain a = .ok left)
    (hb : expr chain b = .ok right) (op : Op) (pos pos' : Pos) :
    (((∃ n, expr chain (.binary pos op a b) = .ok n) ↔
        ∃ n, expr chain (.binary pos' op b a) = .ok n) ↔
      op.lopsided left.type right.type = false) ∧
    (op = .add → left.type = .any → right.type.isAddend = false →
      (∃ n, expr chain (.binary pos op a b) = .ok n) ∧
      expr chain (.binary pos' op b a) =
        .error (.rule (.expectedNumberOrString right.type) b.pos)) := by
  rw [expr_binary_strict hstrict ha hb, expr_binary_strict hstrict hb ha, binary_accepted_iff,
    binary_accepted_iff, ← Bool.eq_iff_iff, Op.accepts_comm_iff]
  refine ⟨Iff.rfl, ?_⟩
  rintro rfl hleft hright
  refine ⟨?_, binary_add_refused right left b.pos a.pos hright⟩
  rw [hleft]
  rfl

/-- A call of a function, about whose result nothing is known. -/
def unknownCall (col : Nat) : Surface.Expr := .call ⟨1, col⟩ "g" []

/-- A scope in which that function is declared. -/
def unknownScope : Scope := ⟨[("g", .function ⟨0, "g", []⟩)], false, none⟩

theorem unknownCall_order_verdict :
    isStrict [unknownScope] = true ∧
    (∀ pos pos',
      (∃ n, expr [unknownScope] (.binary pos .add (unknownCall 18) (.bool ⟨1, 24⟩ true)) = .ok n) ∧
      expr [unknownScope] (.binary pos' .add (.bool ⟨1, 24⟩ true) (unknownCall 18)) =
        .error (.rule (.expectedNumberOrString .boolean) ⟨1, 24⟩)) ∧
    ∀ pos pos',
      (∃ n, expr [unknownScope] (.binary pos .eq (unknownCall 18) (.bool ⟨1, 24⟩ true)) = .ok n) ↔
      ∃ n, expr [unknownScope] (.binary pos' .eq (.bool ⟨1, 24⟩ true) (unknownCall 18)) = .ok n := by
  have hcall : expr [unknownScope] (unknownCall 18) = .ok (.call ⟨0, "g", []⟩ [] .any) := rfl
  refine ⟨rfl, fun pos pos' => ?_, fun pos pos' => ?_⟩
  · exact (operand_order_verdict rfl hcall (b := .bool ⟨1, 24⟩ true) rfl .add pos pos').2 rfl rfl rfl
  · exact (operand_order_verdict rfl hcall (b := .bool ⟨1, 24⟩ true) rfl .eq pos pos').1.mpr rfl

/-- A program that declares that function and prints a value. -/
def printingWith (value : Surface.Expr) : Surface.Program :=
  ⟨[.function ⟨1, 1⟩ "g" [] [], .print ⟨1, 11⟩ value]⟩

set_option maxRecDepth 2000 in
/-- A call may be anything.  Added to a truth value it is accepted on the left and refused
on the right. -/
theorem unknownSum_minds_order :
    Surface.parse "f g: stop speak (g:) + true;" =
      .ok (printingWith (.binary ⟨1, 18⟩ .add (unknownCall 18) (.bool ⟨1, 24⟩ true))) ∧
    Surface.parse "f g: stop speak true + (g:);" =
      .ok (printingWith (.binary ⟨1, 17⟩ .add (.bool ⟨1, 17⟩ true) (unknownCall 25))) ∧
    (∃ t, analyze "f g: stop speak (g:) + true;" = .ok t) ∧
    analyze "f g: stop speak true + (g:);" =
      .error (.refused ⟨.expectedNumberOrString, "Expected a number or string, found boolean",
        ⟨1, 17⟩⟩) := by
  have hparse : Surface.parse "f g: stop speak (g:) + true;" =
      .ok (printingWith (.binary ⟨1, 18⟩ .add (unknownCall 18) (.bool ⟨1, 24⟩ true))) := by cbv
  have hparse' : Surface.parse "f g: stop speak true + (g:);" =
      .ok (printingWith (.binary ⟨1, 17⟩ .add (.bool ⟨1, 17⟩ true) (unknownCall 25))) := by cbv
  refine ⟨hparse, hparse', ?_, ?_⟩
  · rw [analyze_of_parse hparse]
    exact ⟨_, rfl⟩
  · rw [analyze_of_parse hparse']
    rfl

end Squishc
