import Squishc.Proofs.NormalForm
import Squishc.Proofs.ResolvedTree

/-!
# Names and operators are kept

No pass makes up names or operators, apart from the two signs.  Resolution takes the name
of an entity from its declaration and the operator of an operation from the source, and
optimizing moves and drops parts of a tree.  So a property of names and a property of
operators that hold throughout a program as it was written hold throughout the resolved
program and the optimized one.

Main results:

- Theorem `resolve_every`: resolution keeps the properties.
- Theorem `Node.everyAll_optimizeStmts`: so does optimizing.
-/

namespace Squishc

/-! ## Properties of all parts -/

namespace Node

mutual

/-- Whether all names of entities in a tree have one property and all operators another. -/
def every (P : String → Bool) (Q : Op → Bool) : Node → Bool
  | var v => P v.name
  | list items => everyAll P Q items
  | program statements => everyAll P Q statements
  | print argument => argument.every P Q
  | declare v initializer => P v.name && initializer.every P Q
  | assign target source => P target.name && source.every P Q
  | shortIf test consequence => test.every P Q && everyAll P Q consequence
  | ifElse test consequence alternate =>
    test.every P Q && (everyAll P Q consequence && alternate.every P Q)
  | whileLoop test body => test.every P Q && everyAll P Q body
  | forLoop declaration test increment body _ =>
    declaration.every P Q && (test.every P Q && (increment.every P Q && everyAll P Q body))
  | forEach iterator collection body =>
    P iterator.name && (collection.every P Q && everyAll P Q body)
  | define f body => P f.name && (f.params.all (fun v => P v.name) && everyAll P Q body)
  | ret expression => expression.every P Q
  | call f args _ => P f.name && everyAll P Q args
  | unary op operand _ => Q op && operand.every P Q
  | binary op left right _ => Q op && (left.every P Q && right.every P Q)
  | conditional consequent test alternate _ =>
    consequent.every P Q && (test.every P Q && alternate.every P Q)
  | array elements _ => everyAll P Q elements
  | index a i _ => a.every P Q && i.every P Q
  | null | foreign | bool _ | number _ | function _ | exit | shortRet | string _ _ => true

/-- Whether the properties hold throughout some trees. -/
def everyAll (P : String → Bool) (Q : Op → Bool) : List Node → Bool
  | [] => true
  | n :: rest => n.every P Q && everyAll P Q rest

end

variable {P : String → Bool} {Q : Op → Bool}

theorem everyAll_append (ns rest : List Node) :
    everyAll P Q (ns ++ rest) = (everyAll P Q ns && everyAll P Q rest) := by
  induction ns with
  | nil => rfl
  | cons n ns ih => rw [List.cons_append, everyAll, everyAll, ih, Bool.and_assoc]

theorem everyAll_spread (n : Node) : everyAll P Q n.spread = n.every P Q := by
  cases n <;> simp [spread, everyAll, every]

/-! ## Optimizing -/

theorem Reduction.every {op : Op} {left right n : Node} {type : Ty}
    (h : Reduction op left right type n) (hsub : Q .sub = true) (hop : Q op = true)
    (hleft : left.every P Q = true) (hright : right.every P Q = true) : n.every P Q = true := by
  cases h with
  | kept => simp [Node.every, hop, hleft, hright]
  | left => exact hleft
  | right => exact hright
  | turned => simp [Node.every, hsub, hright]
  | known c => cases c <;> rfl

theorem UnaryReduction.every {op : Op} {operand n : Node} {type : Ty}
    (h : UnaryReduction op operand type n) (hop : Q op = true)
    (hoperand : operand.every P Q = true) : n.every P Q = true := by
  cases h with
  | number a => rfl
  | bool b => rfl
  | kept => simp [Node.every, hop, hoperand]

mutual

/-- An optimized expression has the properties. -/
theorem every_optimize (hsub : Q .sub = true) : ∀ e : Node, e.isExpr = true →
    e.every P Q = true → e.optimize.every P Q = true
  | bool _, _, _ | number _, _, _ | string _ _, _, _ => rfl
  | var _, _, h => h
  | call f args type, hexpr, h => by
    simp only [every, Bool.and_eq_true] at h
    rw [optimize_call]
    simp [every, h.1, everyAll_optimizeAll hsub args hexpr h.2]
  | unary op operand type, hexpr, h => by
    simp only [every, Bool.and_eq_true] at h
    rw [optimize_unary]
    exact (unaryReduction_reduceUnary op operand.optimize type).every h.1
      (every_optimize hsub operand hexpr h.2)
  | binary op left right type, hexpr, h => by
    simp only [isExpr, every, Bool.and_eq_true] at hexpr h
    rw [optimize_binary]
    exact (reduction_reduceBinary op left.optimize right.optimize type).every hsub h.1
      (every_optimize hsub left hexpr.1 h.2.1) (every_optimize hsub right hexpr.2 h.2.2)
  | conditional consequent test alternate type, hexpr, h => by
    simp only [isExpr, every, Bool.and_eq_true] at hexpr h
    rw [optimize_conditional]
    simp [every, every_optimize hsub consequent hexpr.1 h.1,
      every_optimize hsub test hexpr.2.1 h.2.1, every_optimize hsub alternate hexpr.2.2 h.2.2]
  | array elements type, hexpr, h => by
    rw [optimize_array]
    exact everyAll_optimizeAll hsub elements hexpr h
  | index a i type, hexpr, h => by
    simp only [isExpr, every, Bool.and_eq_true] at hexpr h
    rw [optimize_index]
    simp [every, every_optimize hsub a hexpr.1 h.1, every_optimize hsub i hexpr.2 h.2]

theorem everyAll_optimizeAll (hsub : Q .sub = true) : ∀ es : List Node, allExpr es = true →
    everyAll P Q es = true → everyAll P Q (optimizeAll es) = true
  | [], _, _ => rfl
  | e :: rest, hexpr, h => by
    simp only [allExpr, everyAll, Bool.and_eq_true] at hexpr h
    rw [optimizeAll_cons]
    simp [everyAll, every_optimize hsub e hexpr.1 h.1, everyAll_optimizeAll hsub rest hexpr.2 h.2]

end

theorem everyAll_roundsOf (c : Count) {body : List Node} (hcounter : P c.counter.name = true)
    (h : everyAll P Q body = true) : everyAll P Q (roundsOf c body) = true := by
  unfold roundsOf
  induction List.range c.rounds with
  | nil => rfl
  | cons round rest ih =>
    rw [List.flatMap_cons, everyAll_append, ih]
    simp [everyAll, every, h, hcounter]

theorem every_unroll {declaration test increment : Node} {body : List Node}
    (hdeclaration : declaration.every P Q = true) (htest : test.every P Q = true)
    (hincrement : increment.every P Q = true) (hbody : everyAll P Q body = true) :
    (unroll declaration test increment body).every P Q = true := by
  unfold unroll
  split
  · rename_i c hcount
    have hcounter : P c.counter.name = true := by
      unfold count? at hcount
      split at hcount
      · split at hcount
        · cases hcount
          simp only [every, Bool.and_eq_true] at hdeclaration
          exact hdeclaration.1
        · cases hcount
      · cases hcount
    split
    · simp [every, hdeclaration, htest, hincrement, everyAll_roundsOf c hcounter hbody]
    · simp [every, hdeclaration, htest, hincrement, hbody]
  · simp [every, hdeclaration, htest, hincrement, hbody]

mutual

/-- An optimized statement has the properties. -/
theorem every_optimize_of_formed (hsub : Q .sub = true) : ∀ n : Node, n.formed = true →
    n.every P Q = true → n.optimize.every P Q = true
  | print argument, hform, h => every_optimize hsub argument hform h
  | declare v initializer, hform, h => by
    simp only [every, Bool.and_eq_true] at h
    rw [optimize_declare]
    simp [every, h.1, every_optimize hsub initializer hform h.2]
  | assign target source, hform, h => by
    simp only [every, Bool.and_eq_true] at h
    rw [optimize_assign, reduceAssign]
    split
    · rfl
    · simp [every, h.1, every_optimize hsub source hform h.2]
  | ret expression, hform, h => every_optimize hsub expression hform h
  | call f args type, hform, h => every_optimize hsub (call f args type) hform h
  | exit, _, _ | shortRet, _, _ => rfl
  | shortIf test consequence, hform, h => by
    simp only [formed, every, Bool.and_eq_true] at hform h
    rw [optimize_shortIf]
    simp [every, every_optimize hsub test hform.1 h.1,
      everyAll_optimizeStmts hsub consequence hform.2 h.2]
  | ifElse test consequence alternate, hform, h => by
    simp only [formed, every, Bool.and_eq_true] at hform h
    rw [optimize_ifElse]
    simp [every, every_optimize hsub test hform.1 h.1,
      everyAll_optimizeStmts hsub consequence hform.2.1 h.2.1,
      every_optimize_of_formed hsub alternate hform.2.2.2 h.2.2]
  | list items, hform, h => by
    rw [optimize_list]
    exact everyAll_optimizeStmts hsub items hform h
  | whileLoop test body, hform, h => by
    simp only [formed, every, Bool.and_eq_true] at hform h
    rw [optimize_whileLoop, reduceWhile]
    split
    · rfl
    · simp [every, every_optimize hsub test hform.1 h.1,
        everyAll_optimizeStmts hsub body hform.2 h.2]
  | forLoop declaration test increment body true, hform, h => by
    simp only [formed, every, Bool.and_eq_true] at hform h
    rw [optimize_unrolled]
    simp [every, h.1, h.2.1, h.2.2.1, everyAll_optimizeStmts hsub body hform.2.2.2 h.2.2.2]
  | forLoop declaration test increment body false, hform, h => by
    simp only [formed, every, Bool.and_eq_true] at hform h
    obtain ⟨⟨-, hdeclaration⟩, htest, ⟨hkind, hincrement⟩, hbody⟩ := hform
    rw [optimize_forLoop]
    apply every_unroll
    · exact every_optimize_of_formed hsub declaration hdeclaration h.1
    · exact every_optimize hsub test htest h.2.1
    · cases increment with
      | assign target source =>
        simp only [every, Bool.and_eq_true] at h
        rw [optimizeIncrement_assign]
        simp [every, h.2.2.1.1, every_optimize hsub source hincrement h.2.2.1.2]
      | _ => cases hkind
    · exact everyAll_optimizeStmts hsub body hbody h.2.2.2
  | forEach iterator collection body, hform, h => by
    simp only [formed, every, Bool.and_eq_true] at hform h
    rw [optimize_forEach, reduceForEach]
    split
    · rfl
    · simp [every, h.1, every_optimize hsub collection hform.1 h.2.1,
        everyAll_optimizeStmts hsub body hform.2 h.2.2]
  | define f body, hform, h => by
    simp only [every, Bool.and_eq_true] at h
    rw [optimize_define]
    simp only [every, Bool.and_eq_true]
    exact ⟨h.1, h.2.1, everyAll_optimizeStmts hsub body hform h.2.2⟩

/-- Optimized statements have the properties. -/
theorem everyAll_optimizeStmts (hsub : Q .sub = true) : ∀ ns : List Node, allFormed ns = true →
    everyAll P Q ns = true → everyAll P Q (optimizeStmts ns) = true
  | [], _, _ => rfl
  | n :: rest, hform, h => by
    simp only [allFormed, everyAll, Bool.and_eq_true] at hform h
    rw [optimizeStmts_cons, everyAll_append, everyAll_spread,
      every_optimize_of_formed hsub n hform.1.2 h.1, everyAll_optimizeStmts hsub rest hform.2 h.2]
    rfl

end

end Node

/-! ## Programs as they were written -/

namespace Surface

mutual

/-- Whether all operators in an expression have a property. -/
def Expr.every (Q : Op → Bool) : Expr → Bool
  | .int _ _ | .float _ _ | .bool _ _ | .string _ _ | .var _ _ | .stray _ => true
  | .array _ elements => Expr.everyAll Q elements
  | .index _ a i => a.every Q && i.every Q
  | .call _ _ args => Expr.everyAll Q args
  | .unary _ op operand => Q op && operand.every Q
  | .binary _ op left right => Q op && (left.every Q && right.every Q)
  | .conditional _ consequent test alternate =>
    consequent.every Q && (test.every Q && alternate.every Q)

/-- Whether all operators in some expressions have a property. -/
def Expr.everyAll (Q : Op → Bool) : List Expr → Bool
  | [] => true
  | e :: rest => e.every Q && Expr.everyAll Q rest

end

mutual

/-- Whether all names that a statement declares have one property and all operators in it
another. -/
def Stmt.every (P : String → Bool) (Q : Op → Bool) : Stmt → Bool
  | .print _ value => value.every Q
  | .declare b => P b.name && b.value.every Q
  | .assign b => b.value.every Q
  | .branch _ test body rest => test.every Q && (Stmt.everyAll P Q body && rest.every P Q)
  | .whileLoop _ test body => test.every Q && Stmt.everyAll P Q body
  | .forLoop _ init test update body =>
    (P init.name && init.value.every Q) &&
      (test.every Q && (update.value.every Q && Stmt.everyAll P Q body))
  | .forEach _ collection name body => P name && (collection.every Q && Stmt.everyAll P Q body)
  | .function _ name params body =>
    P name && (params.all (fun p => P p.name) && Stmt.everyAll P Q body)
  | .exit _ | .stray _ => true
  | .ret _ value => value.all (Expr.every Q)
  | .call _ _ args => Expr.everyAll Q args

/-- Whether the properties hold throughout what follows the body of a branch. -/
def Else.every (P : String → Bool) (Q : Op → Bool) : Else → Bool
  | .absent | .stray _ => true
  | .body body => Stmt.everyAll P Q body
  | .branch _ test body rest => test.every Q && (Stmt.everyAll P Q body && rest.every P Q)

/-- Whether the properties hold throughout some statements. -/
def Stmt.everyAll (P : String → Bool) (Q : Op → Bool) : List Stmt → Bool
  | [] => true
  | s :: rest => s.every P Q && Stmt.everyAll P Q rest

end

end Surface

/-! ## Resolution -/

/-- All entities of a chain have names with a property. -/
def Chain.Every (P : String → Bool) (chain : Chain) : Prop :=
  ∃ known, chain.Within known ∧ ∀ e ∈ known, P e.name = true

namespace Resolve

variable {P : String → Bool} {Q : Op → Bool}

section Chains

variable {chain next : Chain}

theorem every_adds (h : chain.Every P) {es : List Entity} (hadds : Adds chain es next)
    (hes : ∀ e ∈ es, P e.name = true) : next.Every P := by
  obtain ⟨known, hwithin, hknown⟩ := h
  exact ⟨known ++ es, hadds known hwithin, List.forall_mem_append.mpr ⟨hknown, hes⟩⟩

theorem every_enter (h : chain.Every P) {s : Scope} (hempty : s.locals = []) :
    Chain.Every P (s :: chain) := by
  obtain ⟨known, hwithin, hknown⟩ := h
  exact ⟨known, within_enter hwithin hempty, hknown⟩

theorem every_of_gives (h : chain.Every P) {m : Mention} {e : Entity} (he : Gives chain [m] [e]) :
    P e.name = true := by
  obtain ⟨known, hwithin, hknown⟩ := h
  exact hknown e (he.subset hwithin List.mem_cons_self)

end Chains

theorem ends_anyFault {α : Type} (r : Resolved α) : Ends r (fun _ => True) AnyFault := by
  cases r <;> trivial

/-- What resolving adds is a name that was declared. -/
theorem declareVariable_every (env : Env) (hchain : env.chain.Every P) (name : String) (type : Ty)
    (pos : Pos) (hname : P name = true) :
    Ends (env.declareVariable name type pos) (fun r => P r.1.name = true ∧ r.2.chain.Every P)
      AnyFault := by
  apply (declare_adds ⟨env.chain, env.fresh + 1⟩ name (.var ⟨env.fresh, name, type⟩) pos).bind
  intro next hnext
  refine Ends.pure ⟨hname, every_adds hchain hnext ?_⟩
  rw [List.forall_mem_singleton]
  exact hname

theorem all_paramVariables (first : Nat) (params : List Surface.Param)  :
    (paramVariables first params).all (fun v => P v.name) = params.all (fun p => P p.name) := by
  induction params generalizing first with
  | nil => rfl
  | cons p rest ih => rw [paramVariables, List.all_cons, List.all_cons, ih]

/-! ### Expressions -/

/-- An operation with one operand is a negation or a sign, whatever was written. -/
theorem unary_every (hsigns : Q .not = true ∧ Q .sub = true) (strict : Bool) (op : Op)
    {operand : Node} (pos : Pos) (h : operand.every P Q = true) :
    Ends (unary strict op operand pos) (fun n => n.every P Q = true) AnyFault := by
  unfold unary
  split
  · apply (ends_anyFault _).bind
    intro _ _
    exact Ends.pure (by simp [Node.every, hsigns.1, h])
  · apply (ends_anyFault _).bind
    intro _ _
    exact Ends.pure (by simp [Node.every, hsigns.2, h])

mutual

/-- A resolved expression has the properties. -/
theorem expr_every (hsigns : Q .not = true ∧ Q .sub = true) {chain : Chain}
    (hchain : chain.Every P) : ∀ e : Surface.Expr, e.every Q = true →
    Ends (expr chain e) (fun n => n.every P Q = true) AnyFault
  | .int _ _, _ | .float _ _, _ | .bool _ _, _ | .string _ _, _ => rfl
  | .var pos name, _ => by
    apply (variableUse_ends ignores_anyFault (m := ⟨name, pos⟩) (misses_anyFault chain _)).bind
    intro v hv
    exact Ends.pure (every_of_gives hchain hv)
  | .array _ elements, h => by
    apply (exprs_every hsigns hchain elements h).bind
    intro nodes hnodes
    apply (array_ends ignores_anyFault _ nodes _).mono
    rintro n ⟨type, rfl⟩
    exact hnodes
  | .index _ a i, h => by
    simp only [Surface.Expr.every, Bool.and_eq_true] at h
    apply (expr_every hsigns hchain a h.1).bind
    intro arrayNode harray
    apply (expr_every hsigns hchain i h.2).bind
    intro indexNode hindex
    apply (index_ends ignores_anyFault _ arrayNode indexNode _ _).mono
    rintro n ⟨type, rfl⟩
    simp [Node.every, harray, hindex]
  | .call pos callee args, h => by
    apply (calledFunction_ends ignores_anyFault (m := ⟨callee, pos⟩)
      (misses_anyFault chain _)).bind
    intro f hf
    apply (exprs_every hsigns hchain args h).bind
    intro nodes hnodes
    apply (call_ends ignores_anyFault f nodes pos).mono
    rintro n ⟨rfl, -⟩
    rw [Node.every, Bool.and_eq_true]
    exact ⟨every_of_gives hchain hf, hnodes⟩
  | .unary pos op operand, h => by
    simp only [Surface.Expr.every, Bool.and_eq_true] at h
    apply (expr_every hsigns hchain operand h.2).bind
    intro m hm
    exact unary_every hsigns _ op pos hm
  | .binary _ op left right, h => by
    simp only [Surface.Expr.every, Bool.and_eq_true] at h
    apply (expr_every hsigns hchain left h.2.1).bind
    intro l hl
    apply (expr_every hsigns hchain right h.2.2).bind
    intro r hr
    apply (binary_ends ignores_anyFault _ op l r _ _).mono
    rintro n ⟨type, rfl⟩
    simp [Node.every, h.1, hl, hr]
  | .conditional _ consequent test alternate, h => by
    simp only [Surface.Expr.every, Bool.and_eq_true] at h
    apply (expr_every hsigns hchain consequent h.1).bind
    intro c hc
    apply (expr_every hsigns hchain test h.2.1).bind
    intro t ht
    apply (ends_anyFault _).bind
    intro _ _
    apply (expr_every hsigns hchain alternate h.2.2).bind
    intro a ha
    refine Ends.pure ?_
    simp [Node.every, hc, ht, ha]
  | .stray _, _ => trivial

theorem exprs_every (hsigns : Q .not = true ∧ Q .sub = true) {chain : Chain}
    (hchain : chain.Every P) : ∀ es : List Surface.Expr, Surface.Expr.everyAll Q es = true →
    Ends (exprs chain es) (fun ns => Node.everyAll P Q ns = true) AnyFault
  | [], _ => rfl
  | e :: rest, h => by
    simp only [Surface.Expr.everyAll, Bool.and_eq_true] at h
    apply (expr_every hsigns hchain e h.1).bind
    intro n hn
    apply (exprs_every hsigns hchain rest h.2).bind
    intro others hothers
    refine Ends.pure ?_
    simp [Node.everyAll, hn, hothers]

end

theorem test_every (hsigns : Q .not = true ∧ Q .sub = true) {env : Env}
    (hchain : env.chain.Every P) {e : Surface.Expr} (h : e.every Q = true) :
    Ends (test env e) (fun n => n.every P Q = true) AnyFault := by
  apply (expr_every hsigns hchain e h).bind
  intro n hn
  apply (ends_anyFault _).bind
  intro _ _
  exact Ends.pure hn

/-! ### Statements -/

theorem declaration_every (hsigns : Q .not = true ∧ Q .sub = true) {env : Env}
    (hchain : env.chain.Every P) {b : Surface.Binding} (hname : P b.name = true)
    (h : b.value.every Q = true) :
    Ends (declaration env b) (fun r => r.1.every P Q = true ∧ r.2.chain.Every P) AnyFault := by
  apply (expr_every hsigns hchain b.value h).bind
  intro n hn
  apply (declareVariable_every env hchain b.name n.type b.pos hname).bind
  rintro ⟨v, next⟩ ⟨hv, hnext⟩
  exact Ends.pure ⟨by simp [Node.every, hv, hn], hnext⟩

theorem assignment_every (hsigns : Q .not = true ∧ Q .sub = true) {env : Env}
    (hchain : env.chain.Every P) {b : Surface.Binding} (h : b.value.every Q = true) :
    Ends (assignment env b) (fun n => n.every P Q = true) AnyFault := by
  apply (assignTarget_ends ignores_anyFault (m := ⟨b.name, b.pos⟩)
    (misses_anyFault env.chain _)).bind
  intro v hv
  apply (expr_every hsigns hchain b.value h).bind
  intro n hn
  apply (ends_anyFault _).bind
  intro _ _
  refine Ends.pure ?_
  rw [Node.every, Bool.and_eq_true]
  exact ⟨every_of_gives hchain hv, hn⟩

mutual

/-- A resolved statement has the properties, and so have the names that are known behind
it. -/
theorem stmt_every (hsigns : Q .not = true ∧ Q .sub = true) {env : Env}
    (hchain : env.chain.Every P) : ∀ s : Surface.Stmt, s.every P Q = true →
    Ends (stmt env s) (fun r => r.1.every P Q = true ∧ r.2.chain.Every P) AnyFault
  | .print _ value, h => by
    apply (expr_every hsigns hchain value h).bind
    intro n hn
    exact Ends.pure ⟨hn, hchain⟩
  | .declare b, h => by
    simp only [Surface.Stmt.every, Bool.and_eq_true] at h
    exact declaration_every hsigns hchain h.1 h.2
  | .assign b, h => by
    apply (assignment_every hsigns hchain h).bind
    intro n hn
    exact Ends.pure ⟨hn, hchain⟩
  | .branch _ e body rest, h => by
    simp only [Surface.Stmt.every, Bool.and_eq_true] at h
    apply (test_every hsigns hchain h.1).bind
    intro t ht
    apply (stmts_every hsigns hchain body h.2.1).bind
    rintro ⟨nodes, next⟩ ⟨hnodes, hnext⟩
    apply (alternative_every hsigns hnext rest h.2.2).bind
    rintro ⟨alternate?, last⟩ ⟨halternate, hlast⟩
    cases alternate? with
    | none => exact Ends.pure ⟨by simp_all [Node.every], hlast⟩
    | some alternate => exact Ends.pure ⟨by simp_all [Node.every], hlast⟩
  | .whileLoop _ e body, h => by
    simp only [Surface.Stmt.every, Bool.and_eq_true] at h
    apply (test_every hsigns hchain h.1).bind
    intro t ht
    have hinside : (env.inside true none).chain.Every P := every_enter hchain rfl
    apply (stmts_every hsigns hinside body h.2).bind
    rintro ⟨nodes, inner⟩ ⟨hnodes, -⟩
    exact Ends.pure ⟨by simp_all [Node.every], hchain⟩
  | .forLoop _ init e update body, h => by
    simp only [Surface.Stmt.every, Bool.and_eq_true] at h
    have hinside : (env.inside true none).chain.Every P := every_enter hchain rfl
    apply (declaration_every hsigns hinside h.1.1 h.1.2).bind
    rintro ⟨d, inner⟩ ⟨hd, hinner⟩
    apply (test_every hsigns hinner h.2.1).bind
    intro t ht
    apply (assignment_every hsigns hinner h.2.2.1).bind
    intro increment hincrement
    apply (stmts_every hsigns hinner body h.2.2.2).bind
    rintro ⟨nodes, last⟩ ⟨hnodes, -⟩
    exact Ends.pure ⟨by simp_all [Node.every], hchain⟩
  | .forEach pos e name body, h => by
    simp only [Surface.Stmt.every, Bool.and_eq_true] at h
    apply (expr_every hsigns hchain e h.2.1).bind
    intro collection hcollection
    cases itemType? collection.type with
    | none => trivial
    | some item =>
      have hinside : (env.inside true none).chain.Every P := every_enter hchain rfl
      apply (declareVariable_every _ hinside name item pos h.1).bind
      rintro ⟨v, inner⟩ ⟨hv, hinner⟩
      apply (stmts_every hsigns hinner body h.2.2).bind
      rintro ⟨nodes, last⟩ ⟨hnodes, -⟩
      exact Ends.pure ⟨by simp_all [Node.every], hchain⟩
  | .function pos name params body, h => by
    simp only [Surface.Stmt.every, Bool.and_eq_true] at h
    have hparams := all_paramVariables (P := P) (env.fresh + 1) params
    rw [h.2.1] at hparams
    apply (declare_adds _ name (.function ⟨env.fresh, name, paramVariables (env.fresh + 1) params⟩)
      pos).bind
    intro next hadds
    have hnext : next.chain.Every P := by
      refine every_adds hchain hadds ?_
      rw [List.forall_mem_singleton]
      exact h.1
    apply (declareParams_adds (next.inside false _) _).bind
    intro inner hadds'
    have hinner : inner.chain.Every P := by
      refine every_adds (every_enter hnext rfl) hadds' ?_
      rw [map_zip_paramVariables, List.forall_mem_map]
      exact List.all_eq_true.mp hparams
    apply (stmts_every hsigns hinner body h.2.2).bind
    rintro ⟨nodes, last⟩ ⟨hnodes, -⟩
    refine Ends.pure ⟨?_, hnext⟩
    rw [Node.every, Bool.and_eq_true, Bool.and_eq_true]
    exact ⟨h.1, hparams, hnodes⟩
  | .exit _, _ => (ends_anyFault _).bind fun _ _ => ⟨rfl, hchain⟩
  | .ret _ none, _ => (ends_anyFault _).bind fun _ _ => ⟨rfl, hchain⟩
  | .ret _ (some e), h => by
    apply (ends_anyFault _).bind
    intro _ _
    apply (expr_every hsigns hchain e h).bind
    intro n hn
    exact Ends.pure ⟨hn, hchain⟩
  | .call pos callee args, h => by
    apply (calledFunction_ends ignores_anyFault (m := ⟨callee, pos⟩)
      (misses_anyFault env.chain _)).bind
    intro f hf
    apply (exprs_every hsigns hchain args h).bind
    intro nodes hnodes
    apply (call_ends ignores_anyFault f nodes pos).bind
    rintro n ⟨rfl, -⟩
    refine Ends.pure ⟨?_, hchain⟩
    rw [Node.every, Bool.and_eq_true]
    exact ⟨every_of_gives hchain hf, hnodes⟩
  | .stray _, _ => trivial

theorem stmts_every (hsigns : Q .not = true ∧ Q .sub = true) {env : Env}
    (hchain : env.chain.Every P) : ∀ ss : List Surface.Stmt, Surface.Stmt.everyAll P Q ss = true →
    Ends (stmts env ss) (fun r => Node.everyAll P Q r.1 = true ∧ r.2.chain.Every P) AnyFault
  | [], _ => ⟨rfl, hchain⟩
  | s :: rest, h => by
    simp only [Surface.Stmt.everyAll, Bool.and_eq_true] at h
    apply (stmt_every hsigns hchain s h.1).bind
    rintro ⟨n, next⟩ ⟨hn, hnext⟩
    apply (stmts_every hsigns hnext rest h.2).bind
    rintro ⟨others, last⟩ ⟨hothers, hlast⟩
    exact Ends.pure ⟨by simp_all [Node.everyAll], hlast⟩

theorem alternative_every (hsigns : Q .not = true ∧ Q .sub = true) {env : Env}
    (hchain : env.chain.Every P) : ∀ rest : Surface.Else, rest.every P Q = true →
    Ends (alternative env rest)
      (fun r => (∀ n ∈ r.1, n.every P Q = true) ∧ r.2.chain.Every P) AnyFault
  | .absent, _ => ⟨by simp, hchain⟩
  | .body body, h => by
    apply (stmts_every hsigns hchain body h).bind
    rintro ⟨nodes, next⟩ ⟨hnodes, hnext⟩
    exact Ends.pure ⟨by simp_all [Node.every], hnext⟩
  | .branch _ e body rest, h => by
    simp only [Surface.Else.every, Bool.and_eq_true] at h
    apply (test_every hsigns hchain h.1).bind
    intro t ht
    apply (stmts_every hsigns hchain body h.2.1).bind
    rintro ⟨nodes, next⟩ ⟨hnodes, hnext⟩
    apply (alternative_every hsigns hnext rest h.2.2).bind
    rintro ⟨alternate?, last⟩ ⟨halternate, hlast⟩
    cases alternate? with
    | none => exact Ends.pure ⟨by simp_all [Node.every], hlast⟩
    | some alternate => exact Ends.pure ⟨by simp_all [Node.every], hlast⟩
  | .stray _, _ => trivial

end

end Resolve

/-- Resolution keeps properties of names and of operators. -/
theorem resolve_every {P : String → Bool} {Q : Op → Bool} (hsigns : Q .not = true ∧ Q .sub = true)
    {p : Surface.Program} {t : Node} (hp : Surface.Stmt.everyAll P Q p.statements = true)
    (h : resolve p = .ok t) : t.every P Q = true := by
  have hchain : Resolve.Env.initial.chain.Every P :=
    ⟨[], Resolve.within_enter (fun _ _ h => by cases h) rfl, by simp⟩
  have hends : Ends (resolve p) (fun t => t.every P Q = true) Resolve.AnyFault := by
    apply (Resolve.stmts_every hsigns hchain p.statements hp).bind
    rintro ⟨nodes, env⟩ ⟨hnodes, -⟩
    exact Ends.pure hnodes
  exact hends.ok h

end Squishc
