import Squishc.Proofs.Reduction

/-!
# The form of trees

A typed tree may hold any node in any place.  A tree is well formed if each of
its parts is of the kind that belongs there: expressions where values are asked
for, a declaration and an assignment in the header of a loop, a list or a
further branch in the place of an alternative, and no lists among statements.

Main results:

- Theorem `obstacle?_of_formed`: optimizing makes sense of every well formed
  statement.
-/

namespace Squishc.Node

/-! ## Expressions -/

mutual

/-- Whether a node is an expression, with expressions for its parts. -/
def isExpr : Node → Bool
  | bool _ | number _ | string _ _ | var _ => true
  | array elements _ => allExpr elements
  | index a i _ => a.isExpr && i.isExpr
  | call _ args _ => allExpr args
  | unary _ operand _ => operand.isExpr
  | binary _ left right _ => left.isExpr && right.isExpr
  | conditional consequent test alternate _ =>
    consequent.isExpr && (test.isExpr && alternate.isExpr)
  | _ => false

/-- Whether some nodes are expressions. -/
def allExpr : List Node → Bool
  | [] => true
  | n :: rest => n.isExpr && allExpr rest

end

/-! ## The form of statements -/

/-- Whether a node is a list of statements. -/
def isList : Node → Bool
  | list _ => true
  | _ => false

/-- Whether a node can be the alternative of a branch. -/
def isAlternative : Node → Bool
  | list _ | shortIf _ _ | ifElse _ _ _ => true
  | _ => false

/-- Whether a node is a declaration. -/
def isDeclaration : Node → Bool
  | declare _ _ => true
  | _ => false

/-- Whether a node is an assignment. -/
def isAssignment : Node → Bool
  | assign _ _ => true
  | _ => false

mutual

/-- Whether a node is a statement, or a list of statements, with the right kind of
node for each of its parts. -/
def formed : Node → Bool
  | print argument => argument.isExpr
  | declare _ initializer => initializer.isExpr
  | assign _ source => source.isExpr
  | shortIf test consequence => test.isExpr && allFormed consequence
  | ifElse test consequence alternate =>
    test.isExpr && (allFormed consequence && (alternate.isAlternative && alternate.formed))
  | list items => allFormed items
  | whileLoop test body => test.isExpr && allFormed body
  | forLoop declaration test increment body _ =>
    (declaration.isDeclaration && declaration.formed) &&
      (test.isExpr && ((increment.isAssignment && increment.formed) && allFormed body))
  | forEach _ collection body => collection.isExpr && allFormed body
  | define _ body => allFormed body
  | call _ args _ => allExpr args
  | ret expression => expression.isExpr
  | exit | shortRet => true
  | _ => false

/-- Whether some nodes are statements, none of them a list. -/
def allFormed : List Node → Bool
  | [] => true
  | n :: rest => (!n.isList && n.formed) && allFormed rest

end

/-! ## Optimizing a well formed tree -/

mutual

theorem obstacle?_of_isExpr : ∀ {e : Node}, e.isExpr = true → e.obstacle? = none
  | bool _, _ | number _, _ | var _, _ | string _ _, _ => rfl
  | unary _ operand _, h => by
    rw [obstacle?]
    exact obstacle?_of_isExpr h
  | binary _ left right _, h => by
    simp only [isExpr, Bool.and_eq_true] at h
    rw [obstacle?, obstacle?_of_isExpr h.1, obstacle?_of_isExpr h.2]
    rfl
  | conditional consequent test alternate _, h => by
    simp only [isExpr, Bool.and_eq_true] at h
    rw [obstacle?, obstacle?_of_isExpr h.1, obstacle?_of_isExpr h.2.1, obstacle?_of_isExpr h.2.2]
    rfl
  | array elements _, h => by
    rw [obstacle?]
    exact anyObstacle?_of_allExpr h
  | call _ args _, h => by
    rw [obstacle?]
    exact anyObstacle?_of_allExpr h
  | index a i _, h => by
    simp only [isExpr, Bool.and_eq_true] at h
    rw [obstacle?, obstacle?_of_isExpr h.1, obstacle?_of_isExpr h.2]
    rfl

theorem anyObstacle?_of_allExpr : ∀ {items : List Node}, allExpr items = true →
    anyObstacle? items = none
  | [], _ => rfl
  | _ :: _, h => by
    simp only [allExpr, Bool.and_eq_true] at h
    rw [anyObstacle?, obstacle?_of_isExpr h.1, anyObstacle?_of_allExpr h.2]
    rfl

end

/-- The header of a well formed loop stays one when it is optimized. -/
theorem headerObstacle?_of_formed {declaration increment : Node} (test : Node)
    (hdeclaration : declaration.isDeclaration = true) (hincrement : increment.isAssignment = true) :
    headerObstacle? declaration.optimize test.optimize increment.optimizeIncrement = none := by
  cases declaration with
  | declare v e =>
    cases increment with
    | assign w f =>
      rw [optimize_declare, optimizeIncrement_assign]
      unfold headerObstacle?
      split <;> simp_all
    | _ => cases hincrement
  | _ => cases hdeclaration

mutual

/-- The pass makes sense of every well formed statement. -/
theorem obstacle?_of_formed : ∀ {n : Node}, n.formed = true → n.obstacle? = none
  | print _, h | declare _ _, h | assign _ _, h | ret _, h => by
    rw [obstacle?]
    exact obstacle?_of_isExpr h
  | exit, _ | shortRet, _ => rfl
  | shortIf _ _, h => by
    simp only [formed, Bool.and_eq_true] at h
    rw [obstacle?, obstacle?_of_isExpr h.1, anyObstacle?_of_allFormed h.2]
    rfl
  | ifElse _ _ _, h => by
    simp only [formed, Bool.and_eq_true] at h
    rw [obstacle?, obstacle?_of_isExpr h.1, anyObstacle?_of_allFormed h.2.1,
      obstacle?_of_formed h.2.2.2]
    rfl
  | list _, h => by
    rw [obstacle?]
    exact anyObstacle?_of_allFormed h
  | whileLoop _ _, h => by
    simp only [formed, Bool.and_eq_true] at h
    rw [obstacle?, obstacle?_of_isExpr h.1, anyObstacle?_of_allFormed h.2, ite_self]
    rfl
  | forLoop _ test _ _ unrolled, h => by
    simp only [formed, Bool.and_eq_true] at h
    rcases h with ⟨⟨hkind, hdeclaration⟩, htest, ⟨hkind', hincrement⟩, hbody⟩
    rw [obstacle?, obstacle?_of_formed hdeclaration, obstacle?_of_isExpr htest,
      obstacle?_of_formed hincrement, headerObstacle?_of_formed test hkind hkind',
      anyObstacle?_of_allFormed hbody]
    exact ite_self none
  | forEach _ _ _, h => by
    simp only [formed, Bool.and_eq_true] at h
    rw [obstacle?, obstacle?_of_isExpr h.1, anyObstacle?_of_allFormed h.2, ite_self]
    rfl
  | define _ _, h => by
    rw [obstacle?]
    exact anyObstacle?_of_allFormed h
  | call _ _ _, h => by
    rw [obstacle?]
    exact anyObstacle?_of_allExpr h

theorem anyObstacle?_of_allFormed : ∀ {items : List Node}, allFormed items = true →
    anyObstacle? items = none
  | [], _ => rfl
  | _ :: _, h => by
    simp only [allFormed, Bool.and_eq_true] at h
    rw [anyObstacle?, obstacle?_of_formed h.1.2, anyObstacle?_of_allFormed h.2]
    rfl

end

end Squishc.Node
