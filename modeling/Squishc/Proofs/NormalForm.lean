import Squishc.Compile
import Squishc.Proofs.OptimizeScope
import Squishc.Proofs.RuleChoice

/-!
# Normal forms

A tree is normal if there is nothing left to optimize in it: no rule applies to
an operation, no statement is without effect, lists of statements are flat, and
no loop that still has its header could be unrolled.  The header of an unrolled
loop is of no account, and the increment of any other loop may assign a counter
to itself.

Main results:

- Theorem `optimize_of_normal`: a normal tree stays as it is.
- Theorem `normal_optimize`: an optimized expression is normal.
- Theorem `allNormal_optimizeStmts`: optimized statements are normal.
- Theorem `optimize_twice`: optimizing a program a second time changes nothing.
-/

namespace Squishc

namespace Node

/-! ## Normal trees -/

/-- Whether an operation with one operand has a known value. -/
def turnable : Op → Node → Bool
  | .sub, number _ => true
  | .not, bool _ => true
  | _, _ => false

/-- Whether a loop with the given header and body is unrolled. -/
def unrolls (declaration test increment : Node) (body : List Node) : Bool :=
  match count? declaration test increment with
  | some c => repeatable c.counter body && c.rounds ≤ unrollLimit
  | none => false

mutual

/-- Whether there is nothing to optimize in a node. -/
def normal : Node → Bool
  | bool _ | number _ | var _ | string _ _ => true
  | call _ args _ => allNormal args
  | unary op operand _ => operand.normal && !turnable op operand
  | binary op left right _ => left.normal && (right.normal && !reducible op left right)
  | conditional consequent test alternate _ =>
    consequent.normal && (test.normal && alternate.normal)
  | array elements _ => allNormal elements
  | index a i _ => a.normal && i.normal
  | print argument => argument.normal
  | declare _ initializer => initializer.normal
  | assign target source => source.normal && !source.isVariable target
  | shortIf test consequence => test.normal && allNormal consequence
  | ifElse test consequence alternate =>
    test.normal && (allNormal consequence && alternate.normal)
  | list items => allNormal items
  | program statements => allNormal statements
  | whileLoop test body => (test.normal && !test.isFalse) && allNormal body
  | forLoop _ _ _ body true => allNormal body
  | forLoop declaration test (assign target source) body false =>
    (declaration.normal && (test.normal && source.normal)) &&
      (allNormal body && !unrolls declaration test (assign target source) body)
  | forEach _ collection body =>
    (collection.normal && !collection.isEmptyString) && allNormal body
  | define _ body => allNormal body
  | ret expression => expression.normal
  | exit | shortRet => true
  | _ => false

/-- Whether there is nothing to optimize in some nodes, none of which is a list. -/
def allNormal : List Node → Bool
  | [] => true
  | n :: rest => (!n.isList && n.normal) && allNormal rest

end

@[simp] theorem allNormal_append (ns ms : List Node) :
    allNormal (ns ++ ms) = (allNormal ns && allNormal ms) := by
  induction ns with
  | nil => rfl
  | cons n rest ih => simp [allNormal, ih, Bool.and_assoc]

theorem allNormal_spread {n : Node} (h : n.normal = true) : allNormal n.spread = true := by
  cases n with
  | list items => exact h
  | _ => simp [spread, allNormal, isList, h]

theorem unroll_of_unrolls {declaration test increment : Node} {body : List Node}
    (h : unrolls declaration test increment body = true) :
    ∃ c, unroll declaration test increment body =
      forLoop declaration test increment (roundsOf c body) true := by
  unfold unrolls at h
  unfold unroll
  split
  · next c hcount =>
    rw [hcount] at h
    exact ⟨c, if_pos h⟩
  · next hcount =>
    rw [hcount] at h
    cases h

theorem unroll_of_not_unrolls {declaration test increment : Node} {body : List Node}
    (h : unrolls declaration test increment body = false) :
    unroll declaration test increment body = forLoop declaration test increment body false := by
  unfold unrolls at h
  unfold unroll
  split
  · next c hcount =>
    rw [hcount] at h
    rw [if_neg (by simpa using h)]
  · rfl

/-! ## Normal trees stay -/

theorem reduceUnary_of_not_turnable {op : Op} {operand : Node} (type : Ty)
    (h : turnable op operand = false) : reduceUnary op operand type = unary op operand type := by
  generalize hresult : reduceUnary op operand type = n
  have hreduction := unaryReduction_reduceUnary op operand type
  rw [hresult] at hreduction
  cases hreduction with
  | number a hop hoperand =>
    subst hop
    subst hoperand
    cases h
  | bool b hop hoperand =>
    subst hop
    subst hoperand
    cases h
  | kept => rfl

mutual

/-- A normal tree stays as it is. -/
theorem optimize_of_normal : ∀ n : Node, n.normal = true → n.optimize = n
  | bool _, _ | number _, _ | var _, _ | string _ _, _ | exit, _ | shortRet, _ => rfl
  | call f args type, h => by rw [optimize_call, optimizeAll_of_allNormal args h]
  | unary op operand type, h => by
    simp only [normal, Bool.and_eq_true, Bool.not_eq_true'] at h
    rw [optimize_unary, optimize_of_normal operand h.1, reduceUnary_of_not_turnable type h.2]
  | binary op left right type, h => by
    simp only [normal, Bool.and_eq_true, Bool.not_eq_true'] at h
    rw [optimize_binary, optimize_of_normal left h.1, optimize_of_normal right h.2.1,
      reduceBinary_of_not_reducible type h.2.2]
  | conditional consequent test alternate type, h => by
    simp only [normal, Bool.and_eq_true] at h
    rw [optimize_conditional, optimize_of_normal consequent h.1, optimize_of_normal test h.2.1,
      optimize_of_normal alternate h.2.2]
  | array elements type, h => by rw [optimize_array, optimizeAll_of_allNormal elements h]
  | index a i type, h => by
    simp only [normal, Bool.and_eq_true] at h
    rw [optimize_index, optimize_of_normal a h.1, optimize_of_normal i h.2]
  | print argument, h => by rw [optimize_print, optimize_of_normal argument h]
  | declare v initializer, h => by rw [optimize_declare, optimize_of_normal initializer h]
  | assign target source, h => by
    simp only [normal, Bool.and_eq_true, Bool.not_eq_true'] at h
    rw [optimize_assign, optimize_of_normal source h.1, reduceAssign, h.2]
    rfl
  | shortIf test consequence, h => by
    simp only [normal, Bool.and_eq_true] at h
    rw [optimize_shortIf, optimize_of_normal test h.1, optimizeStmts_of_allNormal consequence h.2]
  | ifElse test consequence alternate, h => by
    simp only [normal, Bool.and_eq_true] at h
    rw [optimize_ifElse, optimize_of_normal test h.1, optimizeStmts_of_allNormal consequence h.2.1,
      optimize_of_normal alternate h.2.2]
  | list items, h => by rw [optimize_list, optimizeStmts_of_allNormal items h]
  | program statements, h => by rw [optimize_program, optimizeStmts_of_allNormal statements h]
  | whileLoop test body, h => by
    simp only [normal, Bool.and_eq_true, Bool.not_eq_true'] at h
    rw [optimize_whileLoop, optimize_of_normal test h.1.1, optimizeStmts_of_allNormal body h.2,
      reduceWhile, h.1.2]
    rfl
  | forLoop _ _ _ body true, h => by rw [optimize_unrolled, optimizeStmts_of_allNormal body h]
  | forLoop declaration test (assign target source) body false, h => by
    simp only [normal, Bool.and_eq_true, Bool.not_eq_true'] at h
    rw [optimize_forLoop, optimize_of_normal declaration h.1.1, optimize_of_normal test h.1.2.1,
      optimizeIncrement_assign, optimize_of_normal source h.1.2.2,
      optimizeStmts_of_allNormal body h.2.1, unroll_of_not_unrolls h.2.2]
  | forEach iterator collection body, h => by
    simp only [normal, Bool.and_eq_true, Bool.not_eq_true'] at h
    rw [optimize_forEach, optimize_of_normal collection h.1.1,
      optimizeStmts_of_allNormal body h.2, reduceForEach, h.1.2]
    rfl
  | define f body, h => by rw [optimize_define, optimizeStmts_of_allNormal body h]
  | ret expression, h => by rw [optimize_ret, optimize_of_normal expression h]

theorem optimizeStmts_of_allNormal : ∀ ns : List Node, allNormal ns = true →
    optimizeStmts ns = ns
  | [], _ => rfl
  | n :: rest, h => by
    simp only [allNormal, Bool.and_eq_true, Bool.not_eq_true'] at h
    rw [optimizeStmts_cons, optimize_of_normal n h.1.2, spread_of_isList_eq_false h.1.1,
      optimizeStmts_of_allNormal rest h.2]
    rfl

theorem optimizeAll_of_allNormal : ∀ ns : List Node, allNormal ns = true →
    optimizeAll ns = ns
  | [], _ => rfl
  | n :: rest, h => by
    simp only [allNormal, Bool.and_eq_true] at h
    rw [optimizeAll_cons, optimize_of_normal n h.1.2, optimizeAll_of_allNormal rest h.2]

end

/-! ## Optimized trees are normal -/

theorem UnaryReduction.normal {op : Op} {operand n : Node} {type : Ty}
    (h : UnaryReduction op operand type n) (hoperand : operand.normal = true) :
    n.normal = true := by
  cases h with
  | number a => rfl
  | bool b => rfl
  | kept hnumber hbool =>
    have hturnable : turnable op operand = false := by
      unfold turnable
      split
      · next a => exact absurd rfl (hnumber a rfl)
      · next b => exact absurd rfl (hbool b rfl)
      · rfl
    simp [Node.normal, hoperand, hturnable]

theorem Rule.normal {op : Op} {left right n : Node} {type : Ty} (h : Rule op left right type n)
    (hleft : left.normal = true) (hright : right.normal = true) : n.normal = true := by
  cases h with
  | @folded a b c => cases c <;> rfl
  | right => exact hright
  | left => exact hleft
  | turned hturns hnumber =>
    have hturnable : turnable .sub right = false := by
      cases right with
      | number a => cases hnumber
      | _ => rfl
    simp [Node.normal, hright, hturnable]
  | absorbed k => rfl
  | kept hirreducible => simp [Node.normal, hleft, hright, hirreducible]

theorem isList_of_isExpr {e : Node} (h : e.isExpr = true) : e.isList = false := by
  cases e with
  | list items => cases h
  | _ => rfl

mutual

/-- An optimized expression is normal. -/
theorem normal_optimize : ∀ e : Node, e.isExpr = true → e.optimize.normal = true
  | bool _, _ | number _, _ | var _, _ | string _ _, _ => rfl
  | call f args type, h => by
    rw [optimize_call]
    exact allNormal_optimizeAll args h
  | unary op operand type, h => by
    rw [optimize_unary]
    exact (unaryReduction_reduceUnary op operand.optimize type).normal (normal_optimize operand h)
  | binary op left right type, h => by
    simp only [isExpr, Bool.and_eq_true] at h
    rw [optimize_binary]
    exact (rule_reduceBinary op left.optimize right.optimize type).normal
      (normal_optimize left h.1) (normal_optimize right h.2)
  | conditional consequent test alternate type, h => by
    simp only [isExpr, Bool.and_eq_true] at h
    rw [optimize_conditional]
    simp [normal, normal_optimize consequent h.1, normal_optimize test h.2.1,
      normal_optimize alternate h.2.2]
  | array elements type, h => by
    rw [optimize_array]
    exact allNormal_optimizeAll elements h
  | index a i type, h => by
    simp only [isExpr, Bool.and_eq_true] at h
    rw [optimize_index]
    simp [normal, normal_optimize a h.1, normal_optimize i h.2]

theorem allNormal_optimizeAll : ∀ es : List Node, allExpr es = true →
    allNormal (optimizeAll es) = true
  | [], _ => rfl
  | e :: rest, h => by
    simp only [allExpr, Bool.and_eq_true] at h
    have hlist := isList_of_isExpr (isExpr_optimize e h.1).1
    rw [optimizeAll_cons]
    simp [allNormal, hlist, normal_optimize e h.1, allNormal_optimizeAll rest h.2]

end

/-- The rounds of a loop with a normal body are normal. -/
theorem allNormal_roundsOf (c : Count) {body : List Node} (h : allNormal body = true) :
    allNormal (roundsOf c body) = true := by
  unfold roundsOf
  induction List.range c.rounds with
  | nil => rfl
  | cons round rest ih =>
    rw [List.flatMap_cons, allNormal_append, ih]
    simp [allNormal, normal, isList, isVariable, h]

/-- A loop with normal parts is normal after it was unrolled, if it can be. -/
theorem normal_unroll {declaration test source : Node} {body : List Node} (target : Variable)
    (hdeclaration : declaration.normal = true) (htest : test.normal = true)
    (hsource : source.normal = true) (hbody : allNormal body = true) :
    (unroll declaration test (assign target source) body).normal = true := by
  cases hunrolls : unrolls declaration test (assign target source) body with
  | true =>
    rcases unroll_of_unrolls hunrolls with ⟨c, hunroll⟩
    rw [hunroll]
    exact allNormal_roundsOf c hbody
  | false =>
    rw [unroll_of_not_unrolls hunrolls]
    simp [normal, hdeclaration, htest, hsource, hbody, hunrolls]

mutual

/-- An optimized statement is normal. -/
theorem normal_optimize_of_formed : ∀ n : Node, n.formed = true → n.optimize.normal = true
  | print argument, h => by
    rw [optimize_print]
    exact normal_optimize argument h
  | declare v initializer, h => by
    rw [optimize_declare]
    exact normal_optimize initializer h
  | assign target source, h => by
    rw [optimize_assign, reduceAssign]
    split
    · rfl
    · next hself => simp [normal, normal_optimize source h, hself]
  | shortIf test consequence, h => by
    simp only [formed, Bool.and_eq_true] at h
    rw [optimize_shortIf]
    simp [normal, normal_optimize test h.1, allNormal_optimizeStmts consequence h.2]
  | ifElse test consequence alternate, h => by
    simp only [formed, Bool.and_eq_true] at h
    rw [optimize_ifElse]
    simp [normal, normal_optimize test h.1, allNormal_optimizeStmts consequence h.2.1,
      normal_optimize_of_formed alternate h.2.2.2]
  | list items, h => by
    rw [optimize_list]
    exact allNormal_optimizeStmts items h
  | whileLoop test body, h => by
    simp only [formed, Bool.and_eq_true] at h
    rw [optimize_whileLoop, reduceWhile]
    split
    · rfl
    · next hfalse =>
      simp [normal, normal_optimize test h.1, hfalse, allNormal_optimizeStmts body h.2]
  | forLoop declaration test increment body true, h => by
    simp only [formed, Bool.and_eq_true] at h
    rw [optimize_unrolled]
    exact allNormal_optimizeStmts body h.2.2.2
  | forLoop declaration test increment body false, h => by
    simp only [formed, Bool.and_eq_true] at h
    rcases h with ⟨⟨-, hdeclaration⟩, htest, ⟨hkind, hincrement⟩, hbody⟩
    cases increment with
    | assign target source =>
      rw [optimize_forLoop, optimizeIncrement_assign]
      exact normal_unroll target (normal_optimize_of_formed declaration hdeclaration)
        (normal_optimize test htest) (normal_optimize source hincrement)
        (allNormal_optimizeStmts body hbody)
    | _ => cases hkind
  | forEach iterator collection body, h => by
    simp only [formed, Bool.and_eq_true] at h
    rw [optimize_forEach, reduceForEach]
    split
    · rfl
    · next hempty =>
      simp [normal, normal_optimize collection h.1, hempty, allNormal_optimizeStmts body h.2]
  | define f body, h => by
    rw [optimize_define]
    exact allNormal_optimizeStmts body h
  | call f args type, h => by
    rw [optimize_call]
    exact allNormal_optimizeAll args h
  | ret expression, h => by
    rw [optimize_ret]
    exact normal_optimize expression h
  | exit, _ | shortRet, _ => rfl

/-- Optimized statements are normal. -/
theorem allNormal_optimizeStmts : ∀ ns : List Node, allFormed ns = true →
    allNormal (optimizeStmts ns) = true
  | [], _ => rfl
  | n :: rest, h => by
    simp only [allFormed, Bool.and_eq_true] at h
    rw [optimizeStmts_cons, allNormal_append, allNormal_optimizeStmts rest h.2,
      allNormal_spread (normal_optimize_of_formed n h.1.2)]
    rfl

end

end Node

/-! ## Programs -/

/-- A program that was resolved can be optimized, the result is normal, and
optimizing it a second time changes nothing. -/
theorem optimize_twice {p : Surface.Program} {t : Node} (h : resolve p = .ok t) :
    ∃ q, optimize t = .ok q ∧ q.normal = true ∧ optimize q = .ok q := by
  rcases resolve_settled h with ⟨nodes, rfl, hformed, -, -⟩
  have hnormal : (Node.program nodes).optimize.normal = true := by
    rw [Node.optimize_program]
    exact Node.allNormal_optimizeStmts nodes hformed
  have hobstacle : (Node.program nodes).obstacle? = none := Node.anyObstacle?_of_allFormed hformed
  have hobstacle' : (Node.program nodes).optimize.obstacle? = none := by
    rw [Node.optimize_program]
    exact Node.anyObstacle?_of_allFormed (Node.replaces_optimizeStmts nodes hformed).formed
  refine ⟨(Node.program nodes).optimize, ?_, hnormal, ?_⟩
  · rw [optimize, hobstacle]
  · rw [optimize, hobstacle', Node.optimize_of_normal _ hnormal]

/-- A declaration to fold, an assignment without effect, a loop that is unrolled and a
loop whose increment does nothing. -/
def mixedProgram : Surface.Program :=
  ⟨[.declare ⟨⟨1, 1⟩, "x", .binary ⟨1, 12⟩ .mul (.int ⟨1, 12⟩ 3) (.int ⟨1, 16⟩ 7)⟩,
    .assign ⟨⟨2, 1⟩, "x", .var ⟨2, 5⟩ "x"⟩,
    .forLoop ⟨3, 1⟩ ⟨⟨3, 5⟩, "i", .int ⟨3, 16⟩ 0⟩
      (.binary ⟨3, 24⟩ .lt (.var ⟨3, 24⟩ "i") (.int ⟨3, 28⟩ 2))
      ⟨⟨3, 38⟩, "i", .binary ⟨3, 42⟩ .add (.var ⟨3, 42⟩ "i") (.int ⟨3, 46⟩ 1)⟩
      [.assign ⟨⟨3, 49⟩, "x", .binary ⟨3, 53⟩ .sub (.int ⟨3, 53⟩ 0) (.var ⟨3, 57⟩ "x")⟩],
    .forLoop ⟨4, 1⟩ ⟨⟨4, 5⟩, "j", .int ⟨4, 16⟩ 0⟩
      (.binary ⟨4, 24⟩ .lt (.var ⟨4, 24⟩ "j") (.int ⟨4, 28⟩ 2))
      ⟨⟨4, 38⟩, "j", .binary ⟨4, 42⟩ .add (.var ⟨4, 42⟩ "j") (.int ⟨4, 46⟩ 0)⟩
      [.exit ⟨4, 49⟩]]⟩

theorem mixedProgram_optimize_twice : ∃ t q, resolve mixedProgram = .ok t ∧
    optimize t = .ok q ∧ q.normal = true ∧ optimize q = .ok q := by
  have hresolve : ∃ t, resolve mixedProgram = .ok t := ⟨_, rfl⟩
  rcases hresolve with ⟨t, ht⟩
  rcases optimize_twice ht with ⟨q, hq⟩
  exact ⟨t, q, ht, hq⟩

end Squishc
