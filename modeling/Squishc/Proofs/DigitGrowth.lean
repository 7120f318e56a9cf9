import Squishc.Proofs.ClosedPipeline
import Squishc.Proofs.OptimizeSound
import Squishc.Proofs.RuleChoice

/-!
# Folded numbers that are too long

Integers are written with a limited number of digits, and folding computes without
a limit.  A program that was read from a text can always be written as it stands.
Once it is optimized it can be written unless it holds a folded number that is too
long, or a counter that runs up to such a number; but some programs do.

Main results:

- Theorem `generate_of_analyze`: a program can be written before it is optimized.
- Theorem `writable_optimize`: the expressions that can be written once they are
  optimized.
- Theorem `stmtsFault?_optimizeStmts`: the statements that can be written once they
  are optimized.
- Theorem `allStayWritable_of_allFormed`: it suffices that every folded number can be
  written.
- Theorem `folding_outgrows_text`: when an optimized program can be written.
- Theorem `tallTower_fails_optimized`: not every optimized program can be.
-/

namespace Squishc

/-! ## Numbers that can be written -/

namespace Num

theorem writable_int_iff (n : Int) :
    (int n).writable = true ↔ n.natAbs < unwritableMagnitude := by
  rw [writable, decide_eq_true_eq]

/-- A number of few digits can be written. -/
theorem writable_of_lt {n : Int} (digits : Nat) (h : n.natAbs < Number.tenTo digits)
    (hdigits : digits ≤ digitLimit) : (int n).writable = true :=
  (writable_int_iff n).mpr (Nat.lt_of_lt_of_le h (Number.tenTo_le hdigits))

theorem writable_neg (a : Num) : a.neg.writable = a.writable := by
  cases a with
  | int n => rw [neg, writable, writable, Int.natAbs_neg]
  | float x => rfl

theorem writable_zero : (int 0).writable = true :=
  writable_of_lt 0 (by decide) (by decide)

theorem writable_one : (int 1).writable = true :=
  writable_of_lt 1 (by decide) (by decide)

theorem writable_of_isZero {a : Num} (h : a.isZero = true) : a.writable = true := by
  cases a with
  | int n =>
    have hn : n = 0 := by simpa [isZero] using h
    rw [hn]
    exact writable_zero
  | float x => rfl

theorem isOne_of_isZero {a : Num} (h : a.isZero = true) : a.isOne = false := by
  rw [← Bool.not_eq_true]
  intro hone
  rw [isZero_of_isOne hone] at h
  cases h

end Num

namespace Node

/-! ## Expressions -/

/-- Whether two numbers are folded to something that can be written.  If they are not
folded, whether they can be written is given. -/
def foldWritable (op : Op) (kept : Bool) : Node → Node → Bool
  | number a, number b =>
    match Num.fold op a b with
    | some c => (ofConstant c).writable
    | none => kept
  | _, _ => kept

/-- Whether what becomes of an operation can be written, given its optimized operands
and whether these can be. -/
def staysWritableBy (op : Op) (left right : Node) (keptLeft keptRight : Bool) : Bool :=
  if left.isNumber && right.isNumber then foldWritable op (keptLeft && keptRight) left right
  else if left.neutralLeft op then keptRight
  else if right.neutralRight op then keptLeft
  else absorbs op left right || (keptLeft && keptRight)

theorem reduceBinary_number_left {op : Op} (hop : op ≠ .disj) (a : Num) {right : Node} (type : Ty)
    (h : right.isNumber = false) :
    reduceBinary op (number a) right type = reduceLeft op a right type := by
  rw [reduceBinary, if_neg hop]
  intro b hb
  rw [hb] at h
  cases h

theorem reduceBinary_number_right {op : Op} (hop : op ≠ .disj) {left : Node} (b : Num) (type : Ty)
    (h : left.isNumber = false) :
    reduceBinary op left (number b) type = reduceRight op left b type := by
  rw [reduceBinary, if_neg hop]
  intro a ha
  rw [ha] at h
  cases h

/-- An absorbing operand leaves zero or one. -/
theorem reduceBinary_of_absorbs {op : Op} {left right : Node} (type : Ty)
    (habsorbs : absorbs op left right = true)
    (hnumbers : (left.isNumber && right.isNumber) = false) :
    reduceBinary op left right type = number (.int 0) ∨
      reduceBinary op left right type = number (.int 1) := by
  rw [absorbs, Bool.or_eq_true] at habsorbs
  rcases habsorbs with habsorbs | habsorbs
  · cases left with
    | number a =>
      simp only [absorbsRight, Bool.or_eq_true, Bool.and_eq_true, decide_eq_true_eq] at habsorbs
      rcases habsorbs with ⟨hzero, hop | hop⟩ | ⟨hone, hop⟩
      · have hone : a.isOne = false := Num.isOne_of_isZero hzero
        rw [hop, reduceBinary_number_left (by simp) a type hnumbers]
        simp [reduceLeft, hzero, hone]
      · rw [hop, reduceBinary_number_left (by simp) a type hnumbers]
        simp [reduceLeft, hzero]
      · rw [hop, reduceBinary_number_left (by simp) a type hnumbers]
        simp [reduceLeft, hone]
    | _ => cases habsorbs
  · cases right with
    | number b =>
      have hleft : left.isNumber = false := by simpa [isNumber] using hnumbers
      simp only [absorbsLeft, Bool.or_eq_true, Bool.and_eq_true, decide_eq_true_eq] at habsorbs
      rcases habsorbs with ⟨hzero, hop | hop⟩
      · have hone : b.isOne = false := Num.isOne_of_isZero hzero
        rw [hop, reduceBinary_number_right (by simp) b type hleft]
        simp [reduceRight, hzero, hone]
      · rw [hop, reduceBinary_number_right (by simp) b type hleft]
        simp [reduceRight, hzero]
    | _ => cases habsorbs

theorem staysWritableBy_of_not_reducible {op : Op} {left right : Node} {keptLeft keptRight : Bool}
    (h : reducible op left right = false) :
    staysWritableBy op left right keptLeft keptRight = (keptLeft && keptRight) := by
  unfold staysWritableBy
  unfold reducible at h
  split_ifs at h ⊢ with hnumbers hneutral hneutral'
  · rw [Bool.and_eq_true] at hnumbers
    rcases eq_number_of_isNumber hnumbers.1 with ⟨a, rfl⟩
    rcases eq_number_of_isNumber hnumbers.2 with ⟨b, rfl⟩
    rw [folds, Option.isSome_eq_false_iff, Option.isNone_iff_eq_none] at h
    rw [foldWritable, h]
  · simp [hneutral] at h
  · simp [hneutral'] at h
  · simp only [Bool.or_eq_false_iff] at h
    rw [h.2, Bool.false_or]

/-- The operations that can be written once they are reduced. -/
theorem writable_reduceBinary (op : Op) (left right : Node) (type : Ty) :
    (reduceBinary op left right type).writable =
      staysWritableBy op left right left.writable right.writable := by
  generalize hm : reduceBinary op left right type = m
  have hrule := rule_reduceBinary op left right type
  rw [hm] at hrule
  cases hrule with
  | folded hleft hright hfold =>
    subst hleft
    subst hright
    simp [staysWritableBy, isNumber, foldWritable, hfold]
  | right hneutral hnumber => simp [staysWritableBy, hnumber, hneutral]
  | left hneutral hleft hnumber => simp [staysWritableBy, hnumber, hneutral, hleft]
  | turned hturns hnumber =>
    have hneutral := neutral_of_turnsRight hturns hnumber
    have hzero : left.writable = true := by
      cases left with
      | number a =>
        simp only [turnsRight, Bool.and_eq_true] at hturns
        exact Num.writable_of_isZero hturns.1
      | _ => cases hturns
    simp [staysWritableBy, hnumber, hneutral, absorbs_of_turnsRight hturns, hzero, writable]
  | absorbed k habsorbs hnumber =>
    have hneutral := neutral_of_absorbs habsorbs hnumber
    have hwritable : (number (.int k)).writable = true := by
      rw [← hm]
      rcases reduceBinary_of_absorbs type habsorbs hnumber with hk | hk
      · rw [hk, writable, Num.writable_zero]
      · rw [hk, writable, Num.writable_one]
    simp [staysWritableBy, hnumber, hneutral, habsorbs, hwritable]
  | kept hirreducible =>
    rw [staysWritableBy_of_not_reducible hirreducible, writable]

theorem writable_reduceUnary (op : Op) (operand : Node) (type : Ty) :
    (reduceUnary op operand type).writable = operand.writable := by
  generalize hm : reduceUnary op operand type = m
  have hreduction := unaryReduction_reduceUnary op operand type
  rw [hm] at hreduction
  cases hreduction with
  | number a hop hoperand =>
    rw [hoperand, writable, writable, Num.writable_neg]
  | bool b hop hoperand =>
    rw [hoperand]
    rfl
  | kept => rfl

/-! ## Statements -/

/-- The count of a loop that is unrolled. -/
def unrolledCount? (declaration test increment : Node) (body : List Node) : Option Count :=
  (count? declaration test increment).filter fun c =>
    repeatable c.counter body && c.rounds ≤ unrollLimit

theorem unroll_eq (declaration test increment : Node) (body : List Node) :
    unroll declaration test increment body =
      match unrolledCount? declaration test increment body with
      | some c => forLoop declaration test increment (roundsOf c body) true
      | none => forLoop declaration test increment body false := by
  unfold unroll unrolledCount?
  cases count? declaration test increment with
  | none => rfl
  | some c =>
    by_cases hunrolls : (repeatable c.counter body && c.rounds ≤ unrollLimit) = true
    · simp only [Option.filter_some, hunrolls, if_true]
    · simp only [Option.filter_some, hunrolls, if_false, Bool.false_eq_true]

/-- Whether each round of a count can be written, given whether its body can be. -/
def Count.roundsWritable (c : Count) (body : Bool) : Bool :=
  (List.range c.rounds).all fun round => (Num.int (c.value round)).writable && body

mutual

/-- Whether the program of an optimized tree can be written.  Only what is left of the
tree and shows in its program counts: not the operands of an operation that was
folded, the body of a loop that vanished, or the test of a loop that was unrolled. -/
def staysWritable : Node → Bool
  | number n => n.writable
  | unary _ operand _ => operand.staysWritable
  | binary op left right _ =>
    staysWritableBy op left.optimize right.optimize left.staysWritable right.staysWritable
  | conditional consequent test alternate _ =>
    consequent.staysWritable && (test.staysWritable && alternate.staysWritable)
  | array elements _ => allStayWritable elements
  | index a i _ => a.staysWritable && i.staysWritable
  | call _ args _ => allStayWritable args
  | print e | declare _ e | assign _ e | ret e => e.staysWritable
  | shortIf test consequence => test.staysWritable && allStayWritable consequence
  | ifElse test consequence alternate =>
    test.staysWritable && (allStayWritable consequence && alternate.staysWritable)
  | list items => allStayWritable items
  | program statements => allStayWritable statements
  | whileLoop test body =>
    test.optimize.isFalse || (test.staysWritable && allStayWritable body)
  | forLoop declaration _ _ body true => declaration.writable && allStayWritable body
  | forLoop declaration test increment body false =>
    declaration.staysWritable &&
      match unrolledCount? declaration.optimize test.optimize increment.optimizeIncrement
        (optimizeStmts body) with
      | some c => c.roundsWritable (allStayWritable body)
      | none => test.staysWritable && (allStayWritable body && increment.staysWritable)
  | forEach _ collection body =>
    collection.optimize.isEmptyString || (collection.staysWritable && allStayWritable body)
  | define _ body => allStayWritable body
  | _ => true

/-- Whether the programs of some optimized trees can be written. -/
def allStayWritable : List Node → Bool
  | [] => true
  | n :: rest => n.staysWritable && allStayWritable rest

end

mutual

/-- The expressions that can be written once they are optimized. -/
theorem writable_optimize : ∀ e : Node, e.isExpr = true →
    e.optimize.writable = e.staysWritable
  | bool _, _ | number _, _ | var _, _ | string _ _, _ => rfl
  | array elements _, h => by
    rw [optimize_array, writable, staysWritable, allWritable_optimizeAll elements h]
  | index a i _, h => by
    simp only [isExpr, Bool.and_eq_true] at h
    rw [optimize_index, writable, staysWritable, writable_optimize a h.1, writable_optimize i h.2]
  | call _ args _, h => by
    rw [optimize_call, writable, staysWritable, allWritable_optimizeAll args h]
  | unary op operand type, h => by
    rw [optimize_unary, writable_reduceUnary, staysWritable, writable_optimize operand h]
  | binary op left right type, h => by
    simp only [isExpr, Bool.and_eq_true] at h
    rw [optimize_binary, writable_reduceBinary, staysWritable, writable_optimize left h.1,
      writable_optimize right h.2]
  | conditional consequent test alternate _, h => by
    simp only [isExpr, Bool.and_eq_true] at h
    rw [optimize_conditional, writable, staysWritable, writable_optimize consequent h.1,
      writable_optimize test h.2.1, writable_optimize alternate h.2.2, Bool.and_assoc]

theorem allWritable_optimizeAll : ∀ es : List Node, allExpr es = true →
    allWritable (optimizeAll es) = allStayWritable es
  | [], _ => rfl
  | e :: rest, h => by
    simp only [allExpr, Bool.and_eq_true] at h
    rw [optimizeAll_cons, allWritable, allStayWritable, writable_optimize e h.1,
      allWritable_optimizeAll rest h.2]

end

end Node

/-! ## Obstacles of emission -/

namespace Js

mutual

/-- An expression is emitted if its numbers can be written. -/
theorem exprFault?_isNone : ∀ {e : Node}, e.isExpr = true →
    (exprFault? e).isNone = e.writable
  | .bool _, _ | .string _ _, _ | .var _, _ => rfl
  | .number value, _ => by
    rw [exprFault?, Node.writable]
    cases value.writable <;> rfl
  | .unary _ operand _, h => exprFault?_isNone (e := operand) h
  | .binary _ left right _, h => by
    simp only [Node.isExpr, Bool.and_eq_true] at h
    rw [exprFault?, Option.isNone_or, exprFault?_isNone h.1, exprFault?_isNone h.2, Node.writable]
  | .conditional consequent test alternate _, h => by
    simp only [Node.isExpr, Bool.and_eq_true] at h
    rw [exprFault?, Option.isNone_or, Option.isNone_or, exprFault?_isNone h.1,
      exprFault?_isNone h.2.1, exprFault?_isNone h.2.2, Node.writable, ← Bool.and_assoc,
      Bool.and_comm test.writable]
  | .call _ args _, h => exprsFault?_isNone (s := args) h
  | .array elements _, h => exprsFault?_isNone (s := elements) h
  | .index array index _, h => by
    simp only [Node.isExpr, Bool.and_eq_true] at h
    rw [exprFault?, Option.isNone_or, exprFault?_isNone h.1, exprFault?_isNone h.2, Node.writable]

theorem exprsFault?_isNone : ∀ {s : List Node}, Node.allExpr s = true →
    (exprsFault? s).isNone = Node.allWritable s
  | [], _ => rfl
  | _ :: _, h => by
    simp only [Node.allExpr, Bool.and_eq_true] at h
    rw [exprsFault?, Option.isNone_or, exprFault?_isNone h.1, exprsFault?_isNone h.2,
      Node.allWritable]

end

theorem exprFault?_optimize {e : Node} (h : e.isExpr = true) :
    (exprFault? e.optimize).isNone = e.staysWritable := by
  rw [exprFault?_isNone (Node.isExpr_optimize e h).1, Node.writable_optimize e h]

theorem stmtsFault?_append (ss rest : List Node) :
    stmtsFault? (ss ++ rest) = (stmtsFault? ss).or (stmtsFault? rest) := by
  induction ss with
  | nil => rfl
  | cons s ss ih => rw [List.cons_append, stmtsFault?, stmtsFault?, ih, Option.or_assoc]

theorem stmtsFault?_spread {n : Node} (h : n.isList = false) :
    stmtsFault? n.spread = stmtFault? n := by
  rw [Node.spread_of_isList_eq_false h, stmtsFault?, stmtsFault?, Option.or_none]

/-- The alternative of a branch is emitted like the statements in it. -/
theorem elseFault?_eq {n : Node} (h : n.isAlternative = true) :
    elseFault? n = stmtsFault? n.spread := by
  cases n with
  | list items => rfl
  | shortIf test consequence => rw [stmtsFault?_spread rfl, elseFault?, stmtFault?]
  | ifElse test consequence alternate => rw [stmtsFault?_spread rfl, elseFault?, stmtFault?]
  | _ => cases h

/-- The rounds of a loop are emitted if their counters and the body can be
written. -/
theorem stmtsFault?_roundsOf (c : Node.Count) (body : List Node) :
    (stmtsFault? (Node.roundsOf c body)).isNone =
      c.roundsWritable (stmtsFault? body).isNone := by
  unfold Node.roundsOf Node.Count.roundsWritable
  induction List.range c.rounds with
  | nil => rfl
  | cons round rest ih =>
    rw [List.flatMap_cons, stmtsFault?_append, Option.isNone_or, ih, List.all_cons, stmtsFault?,
      Option.isNone_or, stmtFault?, exprFault?_isNone rfl, Node.writable]

mutual

/-- The statements that can be written once they are optimized. -/
theorem stmtsFault?_optimize : ∀ n : Node, n.formed = true →
    (stmtsFault? n.optimize.spread).isNone = n.staysWritable
  | .print e, h => by
    rw [Node.optimize_print, stmtsFault?_spread rfl, stmtFault?, exprFault?_optimize h,
      Node.staysWritable]
  | .declare _ e, h => by
    rw [Node.optimize_declare, stmtsFault?_spread rfl, stmtFault?, exprFault?_optimize h,
      Node.staysWritable]
  | .ret e, h => by
    rw [Node.optimize_ret, stmtsFault?_spread rfl, stmtFault?, exprFault?_optimize h,
      Node.staysWritable]
  | .assign target e, h => by
    rw [Node.optimize_assign, Node.reduceAssign, Node.staysWritable]
    split_ifs with hself
    · -- An assignment that vanishes has a variable for its source.
      rw [← Node.writable_optimize e h, Node.eq_var_of_isVariable hself]
      rfl
    · rw [stmtsFault?_spread rfl, stmtFault?, exprFault?_optimize h]
  | .exit, _ | .shortRet, _ => rfl
  | .shortIf test consequence, h => by
    simp only [Node.formed, Bool.and_eq_true] at h
    rw [Node.optimize_shortIf, stmtsFault?_spread rfl, stmtFault?, Option.isNone_or,
      exprFault?_optimize h.1, stmtsFault?_optimizeStmts consequence h.2, Node.staysWritable]
  | .ifElse test consequence alternate, h => by
    simp only [Node.formed, Bool.and_eq_true] at h
    rw [Node.optimize_ifElse, stmtsFault?_spread rfl, stmtFault?, Option.isNone_or,
      Option.isNone_or, exprFault?_optimize h.1, stmtsFault?_optimizeStmts consequence h.2.1,
      elseFault?_eq (Node.isAlternative_optimize h.2.2.1), stmtsFault?_optimize alternate h.2.2.2,
      Node.staysWritable]
  | .list items, h => stmtsFault?_optimizeStmts items h
  | .whileLoop test body, h => by
    simp only [Node.formed, Bool.and_eq_true] at h
    rw [Node.optimize_whileLoop, Node.reduceWhile, Node.staysWritable]
    split_ifs with hfalse
    · rw [hfalse]
      rfl
    · rw [stmtsFault?_spread rfl, stmtFault?, Option.isNone_or, exprFault?_optimize h.1,
        stmtsFault?_optimizeStmts body h.2, Bool.eq_false_iff.mpr hfalse, Bool.false_or]
  | .forEach _ collection body, h => by
    simp only [Node.formed, Bool.and_eq_true] at h
    rw [Node.optimize_forEach, Node.reduceForEach, Node.staysWritable]
    split_ifs with hempty
    · rw [hempty]
      rfl
    · rw [stmtsFault?_spread rfl, stmtFault?, Option.isNone_or, exprFault?_optimize h.1,
        stmtsFault?_optimizeStmts body h.2, Bool.eq_false_iff.mpr hempty, Bool.false_or]
  | .forLoop declaration test increment body true, h => by
    simp only [Node.formed, Bool.and_eq_true] at h
    cases declaration with
    | declare v e =>
      rw [Node.optimize_unrolled, stmtsFault?_spread rfl, stmtFault?, Option.isNone_or, if_pos rfl,
        stmtFault?, exprFault?_isNone h.1.2, stmtsFault?_optimizeStmts body h.2.2.2,
        Node.staysWritable, Node.writable]
    | _ => cases h.1.1
  | .forLoop declaration test increment body false, h => by
    simp only [Node.formed, Bool.and_eq_true] at h
    rcases h with ⟨⟨hdeclaration, he⟩, htest, ⟨hincrement, hf⟩, hbody⟩
    cases declaration with
    | declare v e =>
      cases increment with
      | assign w f =>
        rw [Node.optimize_forLoop, Node.staysWritable, Node.staysWritable, Node.staysWritable,
          Node.optimize_declare, Node.optimizeIncrement_assign, Node.unroll_eq]
        split
        · rw [stmtsFault?_spread rfl, stmtFault?, Option.isNone_or, if_pos rfl, stmtFault?,
            exprFault?_optimize he, stmtsFault?_roundsOf, stmtsFault?_optimizeStmts body hbody]
        · rw [stmtsFault?_spread rfl, stmtFault?, Option.isNone_or, if_neg Bool.false_ne_true,
            Option.isNone_or, Option.isNone_or, stmtFault?, stmtFault?, exprFault?_optimize he,
            exprFault?_optimize htest, stmtsFault?_optimizeStmts body hbody,
            exprFault?_optimize hf]
      | _ => cases hincrement
    | _ => cases hdeclaration
  | .define f body, h => by
    rw [Node.optimize_define, stmtsFault?_spread rfl, stmtFault?,
      stmtsFault?_optimizeStmts body h, Node.staysWritable]
  | .call f args type, h => by
    rw [Node.optimize_call, stmtsFault?_spread rfl, stmtFault?,
      exprsFault?_isNone (Node.allExpr_optimizeAll args h).1, Node.allWritable_optimizeAll args h,
      Node.staysWritable]

theorem stmtsFault?_optimizeStmts : ∀ ns : List Node, Node.allFormed ns = true →
    (stmtsFault? (Node.optimizeStmts ns)).isNone = Node.allStayWritable ns
  | [], _ => rfl
  | n :: rest, h => by
    simp only [Node.allFormed, Bool.and_eq_true] at h
    rw [Node.optimizeStmts_cons, stmtsFault?_append, Option.isNone_or,
      stmtsFault?_optimize n h.1.2, stmtsFault?_optimizeStmts rest h.2, Node.allStayWritable]

end

mutual

/-- Statements whose numbers can be written are emitted. -/
theorem stmtFault?_of_writable : ∀ {n : Node}, n.formed = true → n.isList = false →
    n.writable = true → (stmtFault? n).isNone = true
  | .print _, h, _, hw | .declare _ _, h, _, hw | .assign _ _, h, _, hw | .ret _, h, _, hw =>
    (exprFault?_isNone h).trans hw
  | .exit, _, _, _ | .shortRet, _, _, _ => rfl
  | .shortIf _ _, h, _, hw => by
    simp only [Node.formed, Node.writable, Bool.and_eq_true] at h hw
    rw [stmtFault?, Option.isNone_or, exprFault?_isNone h.1, hw.1,
      stmtsFault?_of_writable h.2 hw.2]
    rfl
  | .ifElse _ _ _, h, _, hw => by
    simp only [Node.formed, Node.writable, Bool.and_eq_true] at h hw
    rw [stmtFault?, Option.isNone_or, Option.isNone_or, exprFault?_isNone h.1, hw.1.1,
      stmtsFault?_of_writable h.2.1 hw.1.2, elseFault?_of_writable h.2.2.1 h.2.2.2 hw.2]
    rfl
  | .whileLoop _ _, h, _, hw | .forEach _ _ _, h, _, hw => by
    simp only [Node.formed, Node.writable, Bool.and_eq_true] at h hw
    rw [stmtFault?, Option.isNone_or, exprFault?_isNone h.1, hw.1,
      stmtsFault?_of_writable h.2 hw.2]
    rfl
  | .forLoop _ _ _ _ unrolled, h, _, hw => by
    simp only [Node.formed, Node.writable, Bool.and_eq_true] at h hw
    rcases h with ⟨⟨hkind, hdeclaration⟩, htest, ⟨hkind', hincrement⟩, hbody⟩
    have hheader := stmtFault?_of_writable hdeclaration (not_isList_of_isDeclaration hkind)
      hw.1.1.1
    have hlast := stmtFault?_of_writable hincrement (not_isList_of_isAssignment hkind') hw.1.2
    have hrounds := stmtsFault?_of_writable hbody hw.2
    rw [stmtFault?, Option.isNone_or, hheader]
    cases unrolled with
    | true => simpa using hrounds
    | false =>
      rw [if_neg Bool.false_ne_true, Option.isNone_or, Option.isNone_or, exprFault?_isNone htest,
        hw.1.1.2, hrounds, hlast]
      rfl
  | .define _ body, h, _, hw => stmtsFault?_of_writable (s := body) h hw
  | .call _ args _, h, _, hw => (exprsFault?_isNone (s := args) h).trans hw

theorem elseFault?_of_writable : ∀ {n : Node}, n.isAlternative = true → n.formed = true →
    n.writable = true → (elseFault? n).isNone = true
  | .shortIf _ _, _, h, hw => by
    rw [elseFault?_eq rfl, stmtsFault?_spread rfl]
    exact stmtFault?_of_writable h rfl hw
  | .ifElse _ _ _, _, h, hw => by
    rw [elseFault?_eq rfl, stmtsFault?_spread rfl]
    exact stmtFault?_of_writable h rfl hw
  | .list items, _, h, hw => stmtsFault?_of_writable (s := items) h hw

theorem stmtsFault?_of_writable : ∀ {s : List Node}, Node.allFormed s = true →
    Node.allWritable s = true → (stmtsFault? s).isNone = true
  | [], _, _ => rfl
  | _ :: _, h, hw => by
    simp only [Node.allFormed, Node.allWritable, Bool.and_eq_true, Bool.not_eq_true'] at h hw
    rw [stmtsFault?, Option.isNone_or, stmtFault?_of_writable h.1.2 h.1.1 hw.1,
      stmtsFault?_of_writable h.2 hw.2]
    rfl

end

end Js

namespace Node

/-! ## Folded numbers -/

/-- The number that two numbers are folded to, if any. -/
def foldedBy (op : Op) : Node → Node → List Num
  | number a, number b =>
    match Num.fold op a b with
    | some (.number c) => [c]
    | _ => []
  | _, _ => []

mutual

/-- The numbers that folding computes in a tree, those included that it folds
again. -/
def folded : Node → List Num
  | binary op left right _ =>
    foldedBy op left.optimize right.optimize ++ (left.folded ++ right.folded)
  | unary _ operand _ => operand.folded
  | conditional consequent test alternate _ =>
    consequent.folded ++ (test.folded ++ alternate.folded)
  | array elements _ => foldedIn elements
  | index a i _ => a.folded ++ i.folded
  | call _ args _ => foldedIn args
  | print e | declare _ e | assign _ e | ret e => e.folded
  | shortIf test consequence => test.folded ++ foldedIn consequence
  | ifElse test consequence alternate =>
    test.folded ++ (foldedIn consequence ++ alternate.folded)
  | list items => foldedIn items
  | program statements => foldedIn statements
  | whileLoop test body => test.folded ++ foldedIn body
  | forLoop declaration test increment body _ =>
    declaration.folded ++ (test.folded ++ (increment.folded ++ foldedIn body))
  | forEach _ collection body => collection.folded ++ foldedIn body
  | define _ body => foldedIn body
  | _ => []

/-- The numbers that folding computes in some trees. -/
def foldedIn : List Node → List Num
  | [] => []
  | n :: rest => n.folded ++ foldedIn rest

end

/-- Operands that can be written make for an operation that can be, if their folded
number can be. -/
theorem staysWritableBy_of_folded {op : Op} {left right : Node}
    (h : ∀ n ∈ foldedBy op left right, n.writable = true) :
    staysWritableBy op left right true true = true := by
  unfold staysWritableBy
  split_ifs with hnumbers
  · rw [Bool.and_eq_true] at hnumbers
    rcases eq_number_of_isNumber hnumbers.1 with ⟨a, rfl⟩
    rcases eq_number_of_isNumber hnumbers.2 with ⟨b, rfl⟩
    rw [foldWritable]
    rw [foldedBy] at h
    cases hfold : Num.fold op a b with
    | none => rfl
    | some c =>
      cases c with
      | number value =>
        rw [hfold] at h
        exact h value List.mem_cons_self
      | truth b => rfl
  · rfl
  · rfl
  · rw [Bool.and_self, Bool.or_true]

/-- A counter can be written if it runs between numbers that can be. -/
theorem Count.roundsWritable_of_bounds {c : Count} (hdelta : 0 < c.delta)
    (hfirst : (Num.int c.first).writable = true) (hbound : (Num.int c.bound).writable = true) :
    c.roundsWritable true = true := by
  unfold roundsWritable
  rw [List.all_eq_true]
  intro round hround
  have hbelow : c.value round < c.bound :=
    (c.lt_rounds_iff hdelta round).mp (List.mem_range.mp hround)
  have habove : c.first ≤ c.value round :=
    Int.le_add_of_nonneg_right
      (Int.mul_nonneg (Int.natCast_nonneg round) (Int.le_of_lt hdelta))
  rw [Bool.and_true, Num.writable_int_iff]
  rw [Num.writable_int_iff] at hfirst hbound
  generalize unwritableMagnitude = limit at hfirst hbound ⊢
  omega

mutual

/-- An expression stays writable if its own numbers and all that are folded in it can be
written. -/
theorem staysWritable_of_folded : ∀ e : Node, e.isExpr = true → e.writable = true →
    (∀ n ∈ e.folded, n.writable = true) → e.staysWritable = true
  | bool _, _, _, _ | var _, _, _, _ | string _ _, _, _, _ => rfl
  | number _, _, hw, _ => hw
  | unary _ operand _, h, hw, hf => staysWritable_of_folded operand h hw hf
  | binary op left right _, h, hw, hf => by
    simp only [isExpr, writable, Bool.and_eq_true] at h hw
    simp only [folded, List.forall_mem_append] at hf
    rw [staysWritable, staysWritable_of_folded left h.1 hw.1 hf.2.1,
      staysWritable_of_folded right h.2 hw.2 hf.2.2]
    exact staysWritableBy_of_folded hf.1
  | conditional consequent test alternate _, h, hw, hf => by
    simp only [isExpr, writable, Bool.and_eq_true] at h hw
    simp only [folded, List.forall_mem_append] at hf
    rw [staysWritable, staysWritable_of_folded consequent h.1 hw.1.1 hf.1,
      staysWritable_of_folded test h.2.1 hw.1.2 hf.2.1,
      staysWritable_of_folded alternate h.2.2 hw.2 hf.2.2]
    rfl
  | array elements _, h, hw, hf => allStayWritable_of_folded elements h hw hf
  | call _ args _, h, hw, hf => allStayWritable_of_folded args h hw hf
  | index a i _, h, hw, hf => by
    simp only [isExpr, writable, Bool.and_eq_true] at h hw
    simp only [folded, List.forall_mem_append] at hf
    rw [staysWritable, staysWritable_of_folded a h.1 hw.1 hf.1,
      staysWritable_of_folded i h.2 hw.2 hf.2]
    rfl

theorem allStayWritable_of_folded : ∀ es : List Node, allExpr es = true →
    allWritable es = true → (∀ n ∈ foldedIn es, n.writable = true) → allStayWritable es = true
  | [], _, _, _ => rfl
  | e :: rest, h, hw, hf => by
    simp only [allExpr, allWritable, Bool.and_eq_true] at h hw
    simp only [foldedIn, List.forall_mem_append] at hf
    rw [allStayWritable, staysWritable_of_folded e h.1 hw.1 hf.1,
      allStayWritable_of_folded rest h.2 hw.2 hf.2]
    rfl

end

/-- The counter of an unrolled loop can be written if its optimized header can be. -/
theorem roundsWritable_of_header {e test : Node} {increment : Node} {v : Variable}
    {body : List Node} {c : Count} (he : e.writable = true) (htest : test.writable = true)
    (hcount : unrolledCount? (declare v e) test increment body = some c) :
    c.roundsWritable true = true := by
  rcases Option.filter_eq_some_iff.mp hcount with ⟨hheader, -⟩
  rcases count?_eq_some hheader with ⟨hdelta, hdeclare, ⟨type, rfl⟩, -⟩
  cases hdeclare
  simp only [writable, Bool.true_and] at he htest
  exact Count.roundsWritable_of_bounds hdelta he htest

mutual

/-- A statement stays writable if its own numbers and all that are folded in it can be
written. -/
theorem staysWritable_of_formed : ∀ n : Node, n.formed = true → n.writable = true →
    (∀ a ∈ n.folded, a.writable = true) → n.staysWritable = true
  | print e, h, hw, hf | declare _ e, h, hw, hf | assign _ e, h, hw, hf | ret e, h, hw, hf =>
    staysWritable_of_folded e h hw hf
  | exit, _, _, _ | shortRet, _, _, _ => rfl
  | shortIf test consequence, h, hw, hf => by
    simp only [formed, writable, Bool.and_eq_true] at h hw
    simp only [folded, List.forall_mem_append] at hf
    rw [staysWritable, staysWritable_of_folded test h.1 hw.1 hf.1,
      allStayWritable_of_allFormed consequence h.2 hw.2 hf.2]
    rfl
  | ifElse test consequence alternate, h, hw, hf => by
    simp only [formed, writable, Bool.and_eq_true] at h hw
    simp only [folded, List.forall_mem_append] at hf
    rw [staysWritable, staysWritable_of_folded test h.1 hw.1.1 hf.1,
      allStayWritable_of_allFormed consequence h.2.1 hw.1.2 hf.2.1,
      staysWritable_of_formed alternate h.2.2.2 hw.2 hf.2.2]
    rfl
  | list items, h, hw, hf => allStayWritable_of_allFormed items h hw hf
  | whileLoop test body, h, hw, hf => by
    simp only [formed, writable, Bool.and_eq_true] at h hw
    simp only [folded, List.forall_mem_append] at hf
    rw [staysWritable, staysWritable_of_folded test h.1 hw.1 hf.1,
      allStayWritable_of_allFormed body h.2 hw.2 hf.2]
    exact Bool.or_true _
  | forEach _ collection body, h, hw, hf => by
    simp only [formed, writable, Bool.and_eq_true] at h hw
    simp only [folded, List.forall_mem_append] at hf
    rw [staysWritable, staysWritable_of_folded collection h.1 hw.1 hf.1,
      allStayWritable_of_allFormed body h.2 hw.2 hf.2]
    exact Bool.or_true _
  | forLoop declaration test increment body true, h, hw, hf => by
    simp only [formed, writable, Bool.and_eq_true] at h hw
    simp only [folded, List.forall_mem_append] at hf
    rw [staysWritable, hw.1.1.1, allStayWritable_of_allFormed body h.2.2.2 hw.2 hf.2.2.2]
    rfl
  | forLoop declaration test increment body false, h, hw, hf => by
    simp only [formed, writable, Bool.and_eq_true] at h hw
    simp only [folded, List.forall_mem_append] at hf
    rcases h with ⟨⟨hkind, hdeclaration⟩, htest, ⟨-, hincrement⟩, hbody⟩
    have hfirst := staysWritable_of_formed declaration hdeclaration hw.1.1.1 hf.1
    have htested := staysWritable_of_folded test htest hw.1.1.2 hf.2.1
    have hrounds := allStayWritable_of_allFormed body hbody hw.2 hf.2.2.2
    rw [staysWritable, hfirst, htested, hrounds,
      staysWritable_of_formed increment hincrement hw.1.2 hf.2.2.1, Bool.true_and]
    split
    · next c hcount =>
      cases declaration with
      | declare v e =>
        rw [optimize_declare] at hcount
        have he : e.optimize.writable = true := (writable_optimize e hdeclaration).trans hfirst
        exact roundsWritable_of_header he ((writable_optimize test htest).trans htested) hcount
      | _ => cases hkind
    · rfl
  | define _ body, h, hw, hf => allStayWritable_of_allFormed body h hw hf
  | call _ args _, h, hw, hf => allStayWritable_of_folded args h hw hf

theorem allStayWritable_of_allFormed : ∀ ns : List Node, allFormed ns = true →
    allWritable ns = true → (∀ a ∈ foldedIn ns, a.writable = true) → allStayWritable ns = true
  | [], _, _, _ => rfl
  | n :: rest, h, hw, hf => by
    simp only [allFormed, allWritable, Bool.and_eq_true] at h hw
    simp only [foldedIn, List.forall_mem_append] at hf
    rw [allStayWritable, staysWritable_of_formed n h.1.2 hw.1 hf.1,
      allStayWritable_of_allFormed rest h.2 hw.2 hf.2]
    rfl

end

end Node

/-! ## Programs -/

/-- A program can be emitted if it meets no obstacle. -/
theorem generate_isOk_iff (statements : List Node) :
    (∃ text, generate (.program statements) = .ok text) ↔
      (Js.stmtsFault? statements).isNone = true := by
  unfold generate Js.generate Js.emit Node.toStatements
  cases Js.stmtsFault? statements with
  | none => simp [Except.map, Except.mapError]
  | some fault => simp [Except.map, Except.mapError]

/-- A program that was read from a text can be written before it is optimized. -/
theorem generate_of_analyze {source : String} {t : Node} (h : analyze source = .ok t) :
    t.isProgram = true ∧ t.writable = true ∧ ∃ text, generate t = .ok text := by
  cases hparse : Surface.parse source with
  | error f =>
    rw [analyze, hparse] at h
    cases h
  | ok p =>
    rw [analyze_of_parse hparse] at h
    have hproper := Surface.parse_proper hparse
    cases hresolve : resolve p with
    | error f =>
      rw [hresolve] at h
      cases h
    | ok tree =>
      rw [hresolve] at h
      cases h
      have hprogram := resolve_isProgram hresolve
      have hwritable := (resolve_of_proper hproper).ok hresolve
      refine ⟨hprogram, hwritable, ?_⟩
      rcases Node.eq_program_of_isProgram hprogram with ⟨statements, rfl, hformed⟩
      rw [generate_isOk_iff]
      exact Js.stmtsFault?_of_writable hformed hwritable

/-- The programs that can be written once they are optimized. -/
theorem generate_optimize {t : Node} (h : t.isProgram = true) :
    (t.staysWritable = true → ∃ text, generate t.optimize = .ok text) ∧
    (t.staysWritable = false → generate t.optimize = .error .digitLimit) := by
  have hoptimized := (optimize_isProgram h).2
  have hiff : (∃ text, generate t.optimize = .ok text) ↔ t.staysWritable = true := by
    rcases Node.eq_program_of_isProgram h with ⟨statements, rfl, hformed⟩
    rw [Node.optimize_program, generate_isOk_iff, Js.stmtsFault?_optimizeStmts statements hformed,
      Node.staysWritable]
  refine ⟨hiff.mpr, ?_⟩
  intro hlong
  rcases generate_isProgram hoptimized with hok | herror
  · rw [hiff.mp hok] at hlong
    cases hlong
  · exact herror

/-- Folding can make a program fail, and only by a number that is too long.  A program
that was read from a text can always be written as it stands.  Once it is optimized,
it can be written exactly if no number that is left in it is too long, which is so
whenever none of the folded numbers is. -/
theorem folding_outgrows_text {source : String} {t : Node} (h : analyze source = .ok t) :
    (∃ text, generate t = .ok text) ∧
    ∃ q, optimize t = .ok q ∧
      (t.staysWritable = true → ∃ text, generate q = .ok text) ∧
      (t.staysWritable = false → generate q = .error .digitLimit) ∧
      ((∀ a ∈ t.folded, a.writable = true) → t.staysWritable = true) := by
  rcases generate_of_analyze h with ⟨hprogram, hwritable, htext⟩
  rcases generate_optimize hprogram with ⟨hshort, hlong⟩
  refine ⟨htext, t.optimize, (optimize_isProgram hprogram).1, hshort, hlong, ?_⟩
  intro hfolded
  rcases Node.eq_program_of_isProgram hprogram with ⟨statements, rfl, hformed⟩
  exact Node.allStayWritable_of_allFormed statements hformed hwritable hfolded

/-! ## Towers of powers -/

/-- A power that is small enough is folded. -/
theorem Node.reduceBinary_pow (m : Int) {n : Int} (type : Ty) (hpos : 0 ≤ n)
    (hlimit : n.natAbs ≤ Num.exponentLimit) :
    reduceBinary .pow (number (.int m)) (number (.int n)) type =
      number (.int (m.pow n.toNat)) := by
  have hfold : Num.fold .pow (.int m) (.int n) = some (.number (.int (m.pow n.toNat))) := by
    simp [Num.fold, Num.foldableExponent, hlimit, Num.pow?, hpos]
  simp [reduceBinary, hfold, ofConstant]

theorem Number.tenTo_lt_iff {m n : Nat} : tenTo m < tenTo n ↔ m < n :=
  Nat.pow_lt_pow_iff_right (by decide)

/-- A power of a power of ten has the digits of both. -/
theorem Num.writable_tower (n k : Nat) :
    (int (((10 : Int).pow n).pow k)).writable = decide (n * k < digitLimit) := by
  have hvalue : (((10 : Int).pow n).pow k).natAbs = Number.tenTo (n * k) := by
    change (((10 : Int) ^ n) ^ k).natAbs = 10 ^ (n * k)
    rw [← Int.pow_mul, Int.natAbs_pow]
    rfl
  rw [writable, hvalue, Bool.eq_iff_iff, decide_eq_true_eq, decide_eq_true_eq]
  exact Number.tenTo_lt_iff

/-- The program that prints a power of a power of ten. -/
def powerTower (height : Int) : Node :=
  .program [.print (.binary .pow (.binary .pow (.number (.int 10)) (.number (.int 1000)) .int)
    (.number (.int height)) .int)]

theorem powerTower_staysWritable {height : Int} (hpos : 0 ≤ height)
    (hlimit : height.natAbs ≤ Num.exponentLimit) :
    (powerTower height).staysWritable = decide (1000 * height.toNat < digitLimit) := by
  have hinner := Node.reduceBinary_pow 10 (n := 1000) .int (by decide) (by decide)
  have htower : (Node.binary .pow (.binary .pow (.number (.int 10)) (.number (.int 1000)) .int)
      (.number (.int height)) .int).optimize =
        .number (.int (((10 : Int).pow 1000).pow height.toNat)) := by
    rw [Node.optimize_binary, Node.optimize_binary]
    exact (congrArg (Node.reduceBinary .pow · (.number (.int height)) .int) hinner).trans
      (Node.reduceBinary_pow _ .int hpos hlimit)
  rw [powerTower, Node.staysWritable, Node.allStayWritable, Node.allStayWritable, Bool.and_true,
    Node.staysWritable, ← Node.writable_optimize _ rfl, htower, Node.writable,
    Num.writable_tower]

/-- The text of a program whose number has 4001 digits. -/
def lowSource : String := "speak (10 ** 1000) ** 4;"

/-- The text of a program whose number has 5001 digits. -/
def tallSource : String := "speak (10 ** 1000) ** 5;"

theorem analyze_lowSource : analyze lowSource = .ok (powerTower 4) := by cbv

theorem analyze_tallSource : analyze tallSource = .ok (powerTower 5) := by cbv

theorem powerTowers_outgrow_text :
    (analyze lowSource = .ok (powerTower 4) ∧ (powerTower 4).staysWritable = true ∧
      ∃ q text, optimize (powerTower 4) = .ok q ∧ generate q = .ok text) ∧
    (analyze tallSource = .ok (powerTower 5) ∧ (powerTower 5).staysWritable = false ∧
      ∃ q, optimize (powerTower 5) = .ok q ∧ generate q = .error .digitLimit) := by
  have hlow : (powerTower 4).staysWritable = true :=
    (powerTower_staysWritable (by decide) (by decide)).trans (by decide)
  have htall : (powerTower 5).staysWritable = false :=
    (powerTower_staysWritable (by decide) (by decide)).trans (by decide)
  rcases folding_outgrows_text analyze_lowSource with ⟨-, q, hq, htext, -, -⟩
  rcases htext hlow with ⟨text, hgenerate⟩
  rcases folding_outgrows_text analyze_tallSource with ⟨-, q', hq', -, herror, -⟩
  exact ⟨⟨analyze_lowSource, hlow, q, text, hq, hgenerate⟩,
    analyze_tallSource, htall, q', hq', herror htall⟩

/-- A program that can be written before it is optimized, but not afterwards. -/
theorem tallTower_fails_optimized :
    analyze tallSource = .ok (powerTower 5) ∧
    generate (powerTower 5) = .ok "console.log(((10 ** 1000) ** 5));" ∧
    ∃ q, optimize (powerTower 5) = .ok q ∧ generate q = .error .digitLimit := by
  have htall : (powerTower 5).staysWritable = false :=
    (powerTower_staysWritable (by decide) (by decide)).trans (by decide)
  rcases generate_of_analyze analyze_tallSource with ⟨hprogram, -, hraw⟩
  refine ⟨analyze_tallSource, ?_, _, (optimize_isProgram hprogram).1,
    (generate_optimize hprogram).2 htall⟩
  have hfault := (generate_isOk_iff _).mp hraw
  rw [Option.isNone_iff_eq_none] at hfault
  unfold generate Js.generate Js.emit
  rw [powerTower, Node.toStatements, hfault]
  rfl

end Squishc
