import Mathlib.Tactic.SplitIfs
import Squishc.Node.Optimize

/-!
# What a reduction can do

The rules for binary operations are many, but their results are of few kinds.
This module lists the kinds once, so that a law that only depends on the kind of
the result has one case for each of them and not one for each rule.

Main results:

- Theorem `reduction_reduceBinary`: the result of reducing a binary operation is
  of one of five kinds.
- Theorem `optimizeStmts_spread`: statements in the place of an alternative are
  optimized like any others.
-/

namespace Squishc.Node

/-- What can become of a binary operation: it stays, one of its operands takes its
place, the sign of its right operand is turned, or it is a known value. -/
inductive Reduction (op : Op) (left right : Node) (type : Ty) : Node → Prop where
  | kept : Reduction op left right type (binary op left right type)
  | left : Reduction op left right type left
  | right : Reduction op left right type right
  | turned : Reduction op left right type (unary .sub right type)
  | known (c : Constant) : Reduction op left right type (ofConstant c)

theorem reduction_reduceDisjunction (left right : Node) (type : Ty) :
    Reduction .disj left right type (reduceDisjunction left right type) := by
  fun_cases reduceDisjunction left right type
  · exact .right
  · exact .left
  · exact .kept

theorem reduction_reduceLeft (op : Op) (a : Num) (right : Node) (type : Ty) :
    Reduction op (number a) right type (reduceLeft op a right type) := by
  fun_cases reduceLeft op a right type
  · exact .right
  · exact .right
  · exact .turned
  · exact .known (.number (.int 1))
  · exact .known (.number (.int 0))
  · exact .kept

theorem reduction_reduceRight (op : Op) (left : Node) (b : Num) (type : Ty) :
    Reduction op left (number b) type (reduceRight op left b type) := by
  fun_cases reduceRight op left b type
  · exact .left
  · exact .left
  · exact .known (.number (.int 0))
  · exact .known (.number (.int 1))
  · exact .kept

/-- Reducing a binary operation does one of these things. -/
theorem reduction_reduceBinary (op : Op) (left right : Node) (type : Ty) :
    Reduction op left right type (reduceBinary op left right type) := by
  unfold reduceBinary
  split_ifs with hop
  · subst hop
    exact reduction_reduceDisjunction left right type
  · split
    · split
      · exact .known _
      · exact .kept
    · exact reduction_reduceLeft ..
    · exact reduction_reduceRight ..
    · exact .kept

/-- What can become of an operation with one operand: a known operand is turned, and
any other operation stays. -/
inductive UnaryReduction (op : Op) (operand : Node) (type : Ty) : Node → Prop where
  | number (a : Num) (hop : op = .sub) (hoperand : operand = number a) :
      UnaryReduction op operand type (number a.neg)
  | bool (b : Bool) (hop : op = .not) (hoperand : operand = bool b) :
      UnaryReduction op operand type (bool !b)
  | kept (hnumber : ∀ a, op = .sub → operand ≠ number a)
      (hbool : ∀ b, op = .not → operand ≠ bool b) :
      UnaryReduction op operand type (unary op operand type)

theorem unaryReduction_reduceUnary (op : Op) (operand : Node) (type : Ty) :
    UnaryReduction op operand type (reduceUnary op operand type) := by
  fun_cases reduceUnary op operand type
  · exact .number _ rfl rfl
  · exact .bool _ rfl rfl
  · next hnumber hbool => exact .kept hnumber hbool

/-- An increment that assigns stays an assignment. -/
theorem optimizeIncrement_assign (target : Variable) (source : Node) :
    (assign target source).optimizeIncrement = assign target source.optimize := by
  have hparts : (assign target source).simplify = assign target source.optimize := rfl
  rw [optimizeIncrement, hparts, keepIncrement, reduce, reduceAssign]
  split_ifs <;> rfl

/-- The alternative of a branch is optimized as a list of statements, also when it
is a branch of its own. -/
theorem optimizeStmts_spread (n : Node) : optimizeStmts n.spread = n.optimize.spread := by
  cases n with
  | list items => rfl
  | _ => simp [spread]

end Squishc.Node
