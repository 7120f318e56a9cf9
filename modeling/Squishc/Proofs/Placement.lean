import Squishc.Proofs.ClosedPipeline

/-!
# Where control statements stand

A statement that leaves a loop belongs to a loop around it that lies within the
same function, a return belongs to a function, and a call gives its callee one
argument for each parameter.  The rounds of an unrolled loop are no loop any more,
so whatever leaves a loop in them must belong to a loop inside the rounds.

Main results:

- Theorem `stmt_placed`: a resolved statement is well placed.
- Theorem `placed_of_not_breaksOut`: what cannot leave the loop around it is well
  placed without that loop.
- Theorem `placed_optimize`: optimizing keeps statements well placed.
- Theorem `control_stays_placed`: resolved programs are well placed, optimized or
  not.
-/

namespace Squishc

/-- What surrounds a place in a program: a loop within the innermost function, and
a function. -/
structure Place where
  inLoop : Bool
  inFunction : Bool
deriving DecidableEq, Repr

namespace Place

/-- Outside all loops and functions. -/
def outside : Place := ⟨false, false⟩

/-- Inside a loop that stands here. -/
def loop (place : Place) : Place := ⟨true, place.inFunction⟩

/-- Inside the rounds of an unrolled loop that stands here.  A loop around them is of
no account, since it is not the loop that was unrolled. -/
def rounds (place : Place) : Place := ⟨false, place.inFunction⟩

/-- Inside a function, outside its loops. -/
def function : Place := ⟨false, true⟩

end Place

namespace Node

/-! ## Well placed statements -/

mutual

/-- Whether every call in an expression has one argument for each parameter. -/
def callsFit : Node → Bool
  | call f args _ => args.length = f.params.length && allCallsFit args
  | array elements _ => allCallsFit elements
  | index a i _ => a.callsFit && i.callsFit
  | unary _ operand _ => operand.callsFit
  | binary _ left right _ => left.callsFit && right.callsFit
  | conditional consequent test alternate _ =>
    consequent.callsFit && (test.callsFit && alternate.callsFit)
  | _ => true

/-- Whether every call in some expressions has one argument for each parameter. -/
def allCallsFit : List Node → Bool
  | [] => true
  | n :: rest => n.callsFit && allCallsFit rest

end

mutual

/-- Whether everything in a statement that leaves a loop or a function has one to
leave, given the place of the statement, and every call fits. -/
def placed (place : Place) : Node → Bool
  | exit => place.inLoop
  | ret expression => place.inFunction && expression.callsFit
  | shortRet => place.inFunction
  | print argument => argument.callsFit
  | declare _ initializer => initializer.callsFit
  | assign _ source => source.callsFit
  | shortIf test consequence => test.callsFit && allPlaced place consequence
  | ifElse test consequence alternate =>
    test.callsFit && (allPlaced place consequence && alternate.placed place)
  | list items => allPlaced place items
  | program statements => allPlaced place statements
  | whileLoop test body => test.callsFit && allPlaced place.loop body
  | forLoop declaration test increment body unrolled =>
    declaration.placed place && (test.callsFit && (increment.placed place &&
      allPlaced (if unrolled then place.rounds else place.loop) body))
  | forEach _ collection body => collection.callsFit && allPlaced place.loop body
  | define _ body => allPlaced .function body
  | n => n.callsFit

/-- Whether everything in some statements is well placed. -/
def allPlaced (place : Place) : List Node → Bool
  | [] => true
  | n :: rest => n.placed place && allPlaced place rest

end

@[simp] theorem allPlaced_append (place : Place) (ns ms : List Node) :
    allPlaced place (ns ++ ms) = (allPlaced place ns && allPlaced place ms) := by
  induction ns with
  | nil => rfl
  | cons n rest ih => simp [allPlaced, ih, Bool.and_assoc]

@[simp] theorem allPlaced_spread (place : Place) (n : Node) :
    allPlaced place n.spread = n.placed place := by
  cases n <;> simp [spread, allPlaced, placed]

end Node

/-! ## Resolving -/

namespace Resolve

/-- The place of the statements that are resolved next. -/
def Env.place (env : Env) : Place := ⟨env.inLoop, env.inFunction⟩

/-- A declaration changes nothing about the place. -/
theorem declare_place (env : Env) (name : String) (e : Entity) (pos : Pos) :
    Ends (env.declare name e pos) (fun next => next.place = env.place) AnyFault := by
  rcases env with ⟨chain, fresh⟩
  cases chain with
  | nil => rfl
  | cons top outer =>
    unfold Env.declare Scope.declare?
    by_cases htaken : (top.find? name).isSome = true
    · simp only [htaken, if_true]
      trivial
    · simp only [htaken]
      rfl

theorem declareVariable_place (env : Env) (name : String) (type : Ty) (pos : Pos) :
    Ends (env.declareVariable name type pos) (fun r => r.2.place = env.place) AnyFault :=
  (declare_place ⟨env.chain, env.fresh + 1⟩ name _ pos).bind fun _ hnext => hnext

theorem declareParams_place (env : Env) (params : List (Surface.Param × Variable)) :
    Ends (declareParams env params) (fun next => next.place = env.place) AnyFault := by
  induction params generalizing env with
  | nil => rfl
  | cons p rest ih =>
    apply (declare_place env p.1.name (.var p.2) p.1.pos).bind
    intro next hnext
    apply (ih next).mono
    intro last hlast
    exact hlast.trans hnext

theorem inside_loop_place (env : Env) : (env.inside true none).place = env.place.loop := by
  rcases env with ⟨chain, fresh⟩
  cases chain <;> rfl

theorem inside_function_place (env : Env) (f : Function) :
    (env.inside false (some f)).place = .function := by
  rcases env with ⟨chain, fresh⟩
  cases chain <;> rfl

mutual

/-- The calls in a resolved expression fit. -/
theorem expr_callsFit (chain : Chain) : ∀ e : Surface.Expr,
    Ends (expr chain e) (fun n => n.callsFit = true) AnyFault
  | .int _ _ | .float _ _ | .bool _ _ | .string _ _ => rfl
  | .var pos name =>
    (variableUse_ends ignores_anyFault (m := ⟨name, pos⟩) (misses_anyFault chain _)).bind
      fun _ _ => rfl
  | .array _ elements => by
    apply (exprs_callsFit chain elements).bind
    intro nodes hnodes
    apply (array_ends ignores_anyFault _ nodes _).mono
    rintro n ⟨type, rfl⟩
    exact hnodes
  | .index _ a i => by
    apply (expr_callsFit chain a).bind
    intro arrayNode harray
    apply (expr_callsFit chain i).bind
    intro indexNode hindex
    apply (index_ends ignores_anyFault _ arrayNode indexNode _ _).mono
    rintro n ⟨type, rfl⟩
    simp [Node.callsFit, harray, hindex]
  | .call pos callee args => by
    apply (calledFunction_ends ignores_anyFault (m := ⟨callee, pos⟩)
      (misses_anyFault chain _)).bind
    intro f _
    apply (exprs_callsFit chain args).bind
    intro nodes hnodes
    apply (call_ends ignores_anyFault f nodes pos).mono
    rintro n ⟨rfl, hlength⟩
    simp [Node.callsFit, hlength, hnodes]
  | .unary _ _ operand => by
    apply (expr_callsFit chain operand).bind
    intro m hm
    apply (unary_ends ignores_anyFault _ _ m _).mono
    rintro n ⟨op, type, rfl⟩
    exact hm
  | .binary _ _ left right => by
    apply (expr_callsFit chain left).bind
    intro l hl
    apply (expr_callsFit chain right).bind
    intro r hr
    apply (binary_ends ignores_anyFault _ _ l r _ _).mono
    rintro n ⟨type, rfl⟩
    simp [Node.callsFit, hl, hr]
  | .conditional _ consequent test alternate => by
    apply (expr_callsFit chain consequent).bind
    intro c hc
    apply (expr_callsFit chain test).bind
    intro t ht
    apply (checkBoolean_ends ignores_anyFault _ t _).bind
    intro _ _
    apply (expr_callsFit chain alternate).bind
    intro a ha
    exact show (c.callsFit && (t.callsFit && a.callsFit)) = true by simp [hc, ht, ha]
  | .stray _ => trivial

theorem exprs_callsFit (chain : Chain) : ∀ es : List Surface.Expr,
    Ends (exprs chain es) (fun nodes => Node.allCallsFit nodes = true) AnyFault
  | [] => rfl
  | e :: rest => by
    apply (expr_callsFit chain e).bind
    intro n hn
    apply (exprs_callsFit chain rest).bind
    intro others hothers
    exact show (n.callsFit && Node.allCallsFit others) = true by simp [hn, hothers]

end

theorem test_callsFit (env : Env) (e : Surface.Expr) :
    Ends (test env e) (fun n => n.callsFit = true) AnyFault := by
  apply (expr_callsFit env.chain e).bind
  intro n hn
  apply (checkBoolean_ends ignores_anyFault _ n _).bind
  intro _ _
  exact hn

/-- A declaration is well placed everywhere. -/
theorem declaration_placed (env : Env) (b : Surface.Binding) :
    Ends (declaration env b)
      (fun r => (∀ place, r.1.placed place = true) ∧ r.2.place = env.place) AnyFault := by
  apply (expr_callsFit env.chain b.value).bind
  intro n hn
  apply (declareVariable_place env b.name n.type b.pos).bind
  intro r hr
  exact ⟨fun _ => hn, hr⟩

/-- An assignment is well placed everywhere. -/
theorem assignment_placed (env : Env) (b : Surface.Binding) :
    Ends (assignment env b) (fun n => ∀ place, n.placed place = true) AnyFault := by
  apply (assignTarget_ends ignores_anyFault (m := ⟨b.name, b.pos⟩)
    (misses_anyFault env.chain _)).bind
  intro v _
  apply (expr_callsFit env.chain b.value).bind
  intro n hn
  apply (require_ends ignores_anyFault (by simp)).bind
  intro _ _ place
  exact hn

/-- What is true of a statement that was resolved in some surroundings and led to
others. -/
def Stays (env : Env) (r : Node × Env) : Prop :=
  r.1.placed env.place = true ∧ r.2.place = env.place

/-- What is true of statements that were resolved in some surroundings and led to
others. -/
def StayAll (env : Env) (r : List Node × Env) : Prop :=
  Node.allPlaced env.place r.1 = true ∧ r.2.place = env.place

mutual

/-- A resolved statement is well placed, and the next one stands in the same
place. -/
theorem stmt_placed (env : Env) : ∀ s : Surface.Stmt, Ends (stmt env s) (Stays env) AnyFault
  | .print _ value => (expr_callsFit env.chain value).bind fun _ hn => ⟨hn, rfl⟩
  | .declare b => (declaration_placed env b).mono fun _ hr => ⟨hr.1 _, hr.2⟩
  | .assign b => (assignment_placed env b).bind fun _ hn => ⟨hn _, rfl⟩
  | .branch _ e body rest => by
    apply (test_callsFit env e).bind
    intro t ht
    apply (stmts_placed env body).bind
    rintro ⟨consequence, next⟩ ⟨hbody, hnext⟩
    apply (alternative_placed next rest).bind
    rintro ⟨alternate?, last⟩ ⟨helse, hlast⟩
    rw [hnext] at helse hlast
    cases alternate? with
    | none => exact ⟨by simp_all [Node.placed], hlast⟩
    | some alternate =>
      have hplaced := helse alternate rfl
      exact ⟨by simp_all [Node.placed], hlast⟩
  | .whileLoop _ e body => by
    apply (test_callsFit env e).bind
    intro t ht
    apply (stmts_placed (env.inside true none) body).bind
    rintro ⟨nodes, inner⟩ ⟨hbody, -⟩
    rw [inside_loop_place] at hbody
    exact ⟨by simp_all [Node.placed], rfl⟩
  | .forLoop _ init e update body => by
    apply (declaration_placed (env.inside true none) init).bind
    rintro ⟨d, inner⟩ ⟨hd, hinner⟩
    apply (test_callsFit inner e).bind
    intro t ht
    apply (assignment_placed inner update).bind
    intro increment hincrement
    apply (stmts_placed inner body).bind
    rintro ⟨nodes, last⟩ ⟨hbody, -⟩
    rw [hinner, inside_loop_place] at hbody
    exact ⟨by simp_all [Node.placed], rfl⟩
  | .forEach pos e name body => by
    apply (expr_callsFit env.chain e).bind
    intro collection hcollection
    cases itemType? collection.type with
    | none => trivial
    | some item =>
      apply (declareVariable_place (env.inside true none) name item pos).bind
      rintro ⟨v, inner⟩ hinner
      apply (stmts_placed inner body).bind
      rintro ⟨nodes, last⟩ ⟨hbody, -⟩
      rw [hinner, inside_loop_place] at hbody
      exact ⟨by simp_all [Node.placed], rfl⟩
  | .function pos name params body => by
    apply (declare_place _ name _ pos).bind
    intro next hnext
    apply (declareParams_place _ _).bind
    intro inner hinner
    apply (stmts_placed inner body).bind
    rintro ⟨nodes, last⟩ ⟨hbody, -⟩
    rw [hinner, inside_function_place] at hbody
    exact ⟨hbody, hnext⟩
  | .exit pos => by
    apply (require_ends ignores_anyFault (by simp)).bind
    intro _ hloop
    exact ⟨hloop, rfl⟩
  | .ret pos none => by
    apply (require_ends ignores_anyFault (by simp)).bind
    intro _ hfunction
    exact ⟨hfunction, rfl⟩
  | .ret pos (some e) => by
    apply (require_ends ignores_anyFault (by simp)).bind
    intro _ hfunction
    apply (expr_callsFit env.chain e).bind
    intro n hn
    exact ⟨by simp [Node.placed, Env.place, hfunction, hn], rfl⟩
  | .call pos callee args => by
    apply (calledFunction_ends ignores_anyFault (m := ⟨callee, pos⟩)
      (misses_anyFault env.chain _)).bind
    intro f _
    apply (exprs_callsFit env.chain args).bind
    intro nodes hnodes
    apply (call_ends ignores_anyFault f nodes pos).bind
    rintro n ⟨rfl, hlength⟩
    exact ⟨by simp [Node.placed, Node.callsFit, hlength, hnodes], rfl⟩
  | .stray _ => trivial

theorem stmts_placed (env : Env) : ∀ ss : List Surface.Stmt,
    Ends (stmts env ss) (StayAll env) AnyFault
  | [] => ⟨rfl, rfl⟩
  | s :: rest => by
    apply (stmt_placed env s).bind
    rintro ⟨n, next⟩ ⟨hn, hnext⟩
    apply (stmts_placed next rest).bind
    rintro ⟨others, last⟩ ⟨hothers, hlast⟩
    rw [hnext] at hothers hlast
    exact ⟨by simp_all [Node.allPlaced], hlast⟩

theorem alternative_placed (env : Env) : ∀ rest : Surface.Else,
    Ends (alternative env rest)
      (fun r => (∀ n, r.1 = some n → n.placed env.place = true) ∧ r.2.place = env.place) AnyFault
  | .absent => by
    refine ⟨?_, rfl⟩
    rintro n ⟨⟩
  | .body body => by
    apply (stmts_placed env body).bind
    rintro ⟨nodes, next⟩ ⟨hbody, hnext⟩
    refine ⟨?_, hnext⟩
    rintro n ⟨⟩
    exact hbody
  | .branch _ e body rest => by
    apply (test_callsFit env e).bind
    intro t ht
    apply (stmts_placed env body).bind
    rintro ⟨consequence, next⟩ ⟨hbody, hnext⟩
    apply (alternative_placed next rest).bind
    rintro ⟨alternate?, last⟩ ⟨helse, hlast⟩
    rw [hnext] at helse hlast
    cases alternate? with
    | none =>
      refine ⟨?_, hlast⟩
      rintro n ⟨⟩
      simp_all [Node.placed]
    | some alternate =>
      have hplaced := helse alternate rfl
      refine ⟨?_, hlast⟩
      rintro n ⟨⟩
      simp_all [Node.placed]
  | .stray _ => trivial

end

end Resolve

/-! ## Optimizing -/

namespace Node

theorem length_optimizeAll (es : List Node) : (optimizeAll es).length = es.length := by
  induction es with
  | nil => rfl
  | cons e rest ih => simp [ih]

theorem Reduction.callsFit {op : Op} {left right n : Node} {type : Ty}
    (h : Reduction op left right type n) (hleft : left.callsFit = true)
    (hright : right.callsFit = true) : n.callsFit = true := by
  cases h with
  | kept => simp [Node.callsFit, hleft, hright]
  | left => exact hleft
  | right => exact hright
  | turned => exact hright
  | known c => cases c <;> rfl

theorem UnaryReduction.callsFit {op : Op} {operand n : Node} {type : Ty}
    (h : UnaryReduction op operand type n) (hoperand : operand.callsFit = true) :
    n.callsFit = true := by
  cases h with
  | number a => rfl
  | bool b => rfl
  | kept => exact hoperand

mutual

/-- The calls in an optimized expression fit. -/
theorem callsFit_optimize : ∀ e : Node, e.isExpr = true → e.callsFit = true →
    e.optimize.callsFit = true
  | bool _, _, _ | number _, _, _ | var _, _, _ | string _ _, _, _ => rfl
  | call f args type, hexpr, h => by
    simp only [callsFit, Bool.and_eq_true, decide_eq_true_eq] at h
    rw [optimize_call]
    simp [callsFit, length_optimizeAll, h.1, allCallsFit_optimizeAll args hexpr h.2]
  | unary op operand type, hexpr, h => by
    rw [optimize_unary]
    exact (unaryReduction_reduceUnary op operand.optimize type).callsFit
      (callsFit_optimize operand hexpr h)
  | binary op left right type, hexpr, h => by
    simp only [isExpr, Bool.and_eq_true] at hexpr
    simp only [callsFit, Bool.and_eq_true] at h
    rw [optimize_binary]
    exact (reduction_reduceBinary op left.optimize right.optimize type).callsFit
      (callsFit_optimize left hexpr.1 h.1) (callsFit_optimize right hexpr.2 h.2)
  | conditional consequent test alternate type, hexpr, h => by
    simp only [isExpr, Bool.and_eq_true] at hexpr
    simp only [callsFit, Bool.and_eq_true] at h
    rw [optimize_conditional]
    simp [callsFit, callsFit_optimize consequent hexpr.1 h.1,
      callsFit_optimize test hexpr.2.1 h.2.1, callsFit_optimize alternate hexpr.2.2 h.2.2]
  | array elements type, hexpr, h => by
    rw [optimize_array]
    exact allCallsFit_optimizeAll elements hexpr h
  | index a i type, hexpr, h => by
    simp only [isExpr, Bool.and_eq_true] at hexpr
    simp only [callsFit, Bool.and_eq_true] at h
    rw [optimize_index]
    simp [callsFit, callsFit_optimize a hexpr.1 h.1, callsFit_optimize i hexpr.2 h.2]

theorem allCallsFit_optimizeAll : ∀ es : List Node, allExpr es = true → allCallsFit es = true →
    allCallsFit (optimizeAll es) = true
  | [], _, _ => rfl
  | e :: rest, hexpr, h => by
    simp only [allExpr, Bool.and_eq_true] at hexpr
    simp only [allCallsFit, Bool.and_eq_true] at h
    rw [optimizeAll_cons]
    simp [allCallsFit, callsFit_optimize e hexpr.1 h.1, allCallsFit_optimizeAll rest hexpr.2 h.2]

end

/-- A declaration is well placed everywhere or nowhere. -/
theorem placed_of_isDeclaration {n : Node} (h : n.isDeclaration = true) (place other : Place) :
    n.placed place = n.placed other := by
  cases n with
  | declare v initializer => rfl
  | _ => cases h

/-- An assignment is well placed everywhere or nowhere. -/
theorem placed_of_isAssignment {n : Node} (h : n.isAssignment = true) (place other : Place) :
    n.placed place = n.placed other := by
  cases n with
  | assign target source => rfl
  | _ => cases h

mutual

/-- What cannot leave the loop around it is well placed without that loop.  Only
branches are looked into: a loop inside is a place of its own, and so is a
function. -/
theorem placed_of_not_breaksOut {place : Place} : ∀ n : Node, n.formed = true →
    n.isList = false → n.breaksOut = false → n.placed place.loop = true →
      n.placed place.rounds = true
  | exit, _, _, hbreak, _ => by cases hbreak
  | shortIf test consequence, hform, _, hbreak, h => by
    simp only [formed, Bool.and_eq_true] at hform
    simp only [placed, Bool.and_eq_true] at h
    simp [placed, h.1, allPlaced_of_not_anyBreaksOut consequence hform.2 hbreak h.2]
  | ifElse test consequence alternate, hform, _, hbreak, h => by
    simp only [formed, Bool.and_eq_true] at hform
    simp only [placed, Bool.and_eq_true] at h
    rw [breaksOut_ifElse, Bool.or_eq_false_iff] at hbreak
    have halternate : alternate.placed place.rounds = true := by
      cases alternate with
      | list items => exact allPlaced_of_not_anyBreaksOut items hform.2.2.2 hbreak.2 h.2.2
      | shortIf t items =>
        have hout : (shortIf t items).breaksOut = false := by
          simpa [spread, anyBreaksOut] using hbreak.2
        exact placed_of_not_breaksOut (shortIf t items) hform.2.2.2 rfl hout h.2.2
      | ifElse t items other =>
        have hout : (ifElse t items other).breaksOut = false := by
          simpa [spread, anyBreaksOut] using hbreak.2
        exact placed_of_not_breaksOut (ifElse t items other) hform.2.2.2 rfl hout h.2.2
      | _ => cases hform.2.2.1
    simp [placed, h.1, allPlaced_of_not_anyBreaksOut consequence hform.2.1 hbreak.1 h.2.1,
      halternate]
  | forLoop declaration test increment body unrolled, hform, _, _, h => by
    simp only [formed, Bool.and_eq_true] at hform
    simp only [placed] at h ⊢
    rw [placed_of_isDeclaration hform.1.1 place.rounds place.loop,
      placed_of_isAssignment hform.2.2.1.1 place.rounds place.loop]
    cases unrolled <;> exact h
  | print _, _, _, _, h | declare _ _, _, _, _, h | assign _ _, _, _, _, h
  | whileLoop _ _, _, _, _, h | forEach _ _ _, _, _, _, h | define _ _, _, _, _, h
  | call _ _ _, _, _, _, h | ret _, _, _, _, h | shortRet, _, _, _, h => h

theorem allPlaced_of_not_anyBreaksOut {place : Place} : ∀ ns : List Node, allFormed ns = true →
    anyBreaksOut ns = false → allPlaced place.loop ns = true → allPlaced place.rounds ns = true
  | [], _, _, _ => rfl
  | n :: rest, hform, hbreak, h => by
    simp only [allFormed, Bool.and_eq_true, Bool.not_eq_true'] at hform
    simp only [anyBreaksOut, Bool.or_eq_false_iff] at hbreak
    simp only [allPlaced, Bool.and_eq_true] at h
    simp [allPlaced, placed_of_not_breaksOut n hform.1.2 hform.1.1 hbreak.1 h.1,
      allPlaced_of_not_anyBreaksOut rest hform.2 hbreak.2 h.2]

end

/-- The rounds of a loop whose body cannot leave it. -/
theorem allPlaced_roundsOf {place : Place} (c : Count) {body : List Node}
    (h : allPlaced place body = true) : allPlaced place (roundsOf c body) = true := by
  unfold roundsOf
  induction List.range c.rounds with
  | nil => rfl
  | cons round rest ih =>
    rw [List.flatMap_cons, allPlaced_append, ih]
    simp [allPlaced, placed, callsFit, h]

/-- A loop with well placed parts is well placed after it was unrolled, if it can
be. -/
theorem placed_unroll {place : Place} {declaration test increment : Node} {body : List Node}
    (hdeclaration : declaration.placed place = true) (htest : test.callsFit = true)
    (hincrement : increment.placed place = true) (hform : allFormed body = true)
    (hbody : allPlaced place.loop body = true) :
    (unroll declaration test increment body).placed place = true := by
  have hrolled : (forLoop declaration test increment body false).placed place = true := by
    simp [placed, hdeclaration, htest, hincrement, hbody]
  unfold unroll
  split
  · next c hcount =>
    split_ifs with hunroll
    · simp only [repeatable, Bool.and_eq_true, Bool.not_eq_true', Bool.or_eq_false_iff] at hunroll
      have hrounds := allPlaced_of_not_anyBreaksOut body hform hunroll.1.1.1 hbody
      simp [placed, hdeclaration, htest, hincrement, allPlaced_roundsOf c hrounds]
    · exact hrolled
  · exact hrolled

mutual

/-- An optimized statement is as well placed as the statement. -/
theorem placed_optimize {place : Place} : ∀ n : Node, n.formed = true →
    n.placed place = true → n.optimize.placed place = true
  | print argument, hform, h => by
    rw [optimize_print]
    exact callsFit_optimize argument hform h
  | declare v initializer, hform, h => by
    rw [optimize_declare]
    exact callsFit_optimize initializer hform h
  | assign target source, hform, h => by
    rw [optimize_assign, reduceAssign]
    split
    · rfl
    · exact callsFit_optimize source hform h
  | ret expression, hform, h => by
    simp only [placed, Bool.and_eq_true] at h
    rw [optimize_ret]
    simp [placed, h.1, callsFit_optimize expression hform h.2]
  | call f args type, hform, h => callsFit_optimize (call f args type) hform h
  | exit, _, h | shortRet, _, h => h
  | shortIf test consequence, hform, h => by
    simp only [formed, Bool.and_eq_true] at hform
    simp only [placed, Bool.and_eq_true] at h
    rw [optimize_shortIf]
    simp [placed, callsFit_optimize test hform.1 h.1,
      allPlaced_optimizeStmts consequence hform.2 h.2]
  | ifElse test consequence alternate, hform, h => by
    simp only [formed, Bool.and_eq_true] at hform
    simp only [placed, Bool.and_eq_true] at h
    rw [optimize_ifElse]
    simp [placed, callsFit_optimize test hform.1 h.1,
      allPlaced_optimizeStmts consequence hform.2.1 h.2.1,
      placed_optimize alternate hform.2.2.2 h.2.2]
  | list items, hform, h => by
    rw [optimize_list]
    exact allPlaced_optimizeStmts items hform h
  | whileLoop test body, hform, h => by
    simp only [formed, Bool.and_eq_true] at hform
    simp only [placed, Bool.and_eq_true] at h
    rw [optimize_whileLoop, reduceWhile]
    split
    · rfl
    · simp [placed, callsFit_optimize test hform.1 h.1, allPlaced_optimizeStmts body hform.2 h.2]
  | forLoop declaration test increment body true, hform, h => by
    simp only [formed, Bool.and_eq_true] at hform
    simp only [placed, if_true, Bool.and_eq_true] at h
    rw [optimize_unrolled]
    simp [placed, h.1, h.2.1, h.2.2.1, allPlaced_optimizeStmts body hform.2.2.2 h.2.2.2]
  | forLoop declaration test increment body false, hform, h => by
    simp only [formed, Bool.and_eq_true] at hform
    simp only [placed, Bool.false_eq_true, if_false, Bool.and_eq_true] at h
    rcases hform with ⟨⟨-, hdeclaration⟩, htest, ⟨hkind, hincrement⟩, hbody⟩
    rw [optimize_forLoop]
    apply placed_unroll
    · exact placed_optimize declaration hdeclaration h.1
    · exact callsFit_optimize test htest h.2.1
    · cases increment with
      | assign target source =>
        rw [optimizeIncrement_assign]
        exact callsFit_optimize source hincrement h.2.2.1
      | _ => cases hkind
    · exact (replaces_optimizeStmts body hbody).formed
    · exact allPlaced_optimizeStmts body hbody h.2.2.2
  | forEach iterator collection body, hform, h => by
    simp only [formed, Bool.and_eq_true] at hform
    simp only [placed, Bool.and_eq_true] at h
    rw [optimize_forEach, reduceForEach]
    split
    · rfl
    · simp [placed, callsFit_optimize collection hform.1 h.1,
        allPlaced_optimizeStmts body hform.2 h.2]
  | define f body, hform, h => by
    rw [optimize_define]
    exact allPlaced_optimizeStmts body hform h

/-- Optimized statements are as well placed as the statements. -/
theorem allPlaced_optimizeStmts {place : Place} : ∀ ns : List Node, allFormed ns = true →
    allPlaced place ns = true → allPlaced place (optimizeStmts ns) = true
  | [], _, _ => rfl
  | n :: rest, hform, h => by
    simp only [allFormed, Bool.and_eq_true] at hform
    simp only [allPlaced, Bool.and_eq_true] at h
    rw [optimizeStmts_cons, allPlaced_append, allPlaced_spread, placed_optimize n hform.1.2 h.1,
      allPlaced_optimizeStmts rest hform.2 h.2]
    rfl

end

end Node

/-! ## Programs -/

theorem resolve_placed {p : Surface.Program} {t : Node} (h : resolve p = .ok t) :
    t.placed .outside = true := by
  have hplaced : Ends (resolve p) (fun t => t.placed .outside = true) Resolve.AnyFault := by
    apply (Resolve.stmts_placed .initial p.statements).bind
    intro r hr
    exact hr.1
  exact hplaced.ok h

/-- In a program that was resolved, before it is optimized and after, whatever leaves
a loop or a function stands in one, and every call has one argument for each
parameter of its callee. -/
theorem control_stays_placed {p : Surface.Program} {t : Node} (h : resolve p = .ok t) :
    t.placed .outside = true ∧ ∃ q, optimize t = .ok q ∧ q.placed .outside = true := by
  have hplaced := resolve_placed h
  have hprogram := resolve_isProgram h
  refine ⟨hplaced, t.optimize, (optimize_isProgram hprogram).1, ?_⟩
  rcases Node.eq_program_of_isProgram hprogram with ⟨nodes, rfl, hform⟩
  rw [Node.optimize_program]
  exact Node.allPlaced_optimizeStmts nodes hform hplaced

/-- A function that calls itself and returns from a loop that it may also leave, and a
loop that is unrolled around a loop that is left. -/
def leavingProgram : Surface.Program :=
  ⟨[.function ⟨1, 1⟩ "down" [⟨⟨1, 8⟩, "n"⟩]
      [.whileLoop ⟨2, 1⟩ (.bool ⟨2, 7⟩ true)
        [.branch ⟨3, 1⟩ (.binary ⟨3, 4⟩ .lt (.var ⟨3, 4⟩ "n") (.int ⟨3, 8⟩ 1)) [.exit ⟨3, 11⟩]
          (.body [.call ⟨4, 1⟩ "down" [.binary ⟨4, 7⟩ .sub (.var ⟨4, 7⟩ "n") (.int ⟨4, 11⟩ 1)]]),
        .ret ⟨5, 1⟩ (some (.var ⟨5, 8⟩ "n"))]],
    .forLoop ⟨7, 1⟩ ⟨⟨7, 5⟩, "i", .int ⟨7, 16⟩ 0⟩
      (.binary ⟨7, 24⟩ .lt (.var ⟨7, 24⟩ "i") (.int ⟨7, 28⟩ 2))
      ⟨⟨7, 38⟩, "i", .binary ⟨7, 42⟩ .add (.var ⟨7, 42⟩ "i") (.int ⟨7, 46⟩ 1)⟩
      [.whileLoop ⟨8, 1⟩ (.bool ⟨8, 7⟩ true)
        [.call ⟨8, 13⟩ "down" [.var ⟨8, 19⟩ "i"], .exit ⟨8, 22⟩]]]⟩

theorem leavingProgram_stays_placed :
    ∃ t q, resolve leavingProgram = .ok t ∧ t.placed .outside = true ∧
      optimize t = .ok q ∧ q.placed .outside = true ∧ t.rolled = true ∧ q.rolled = false := by
  have hresolve : ∃ t, resolve leavingProgram = .ok t ∧ t.rolled = true ∧
      t.optimize.rolled = false := ⟨_, rfl, rfl, rfl⟩
  rcases hresolve with ⟨t, ht, hrolled, hunrolled⟩
  rcases control_stays_placed ht with ⟨hplaced, q, hq, hplaced'⟩
  have hoptimized : q = t.optimize := by
    rw [(optimize_isProgram (resolve_isProgram ht)).1] at hq
    exact (Except.ok.inj hq).symm
  exact ⟨t, q, ht, hplaced, hq, hplaced', hrolled, hoptimized ▸ hunrolled⟩

end Squishc
