import Squishc.Proofs.KeptParts
import Squishc.Proofs.ObjectTree
import Squishc.Proofs.Placement

/-!
# Programs whose objects tell them

The objects of a tree show an operator by its written form, and an operation with one
operand like one whose second operand is missing.  A program that is well formed never
lacks an operand, and no pass makes up operators: resolution keeps those that were
written, and optimizing only adds the sign of a number.  So the tree of a program is
legible before it is optimized and after.

Main results:

- Theorem `legible_of_formed`: a well formed tree with canonical operators is legible.
- Theorem `resolve_canonical`: resolution keeps operators canonical.
- Theorem `Node.allCanonical_optimizeStmts`: so does optimizing.
- Theorem `Built.legible`: every program that the passes build is legible.
-/

namespace Squishc

/-! ## Operators of typed trees -/

namespace Node

mutual

/-- Whether every operator in a tree is canonical. -/
def canonical : Node → Bool
  | list items => allCanonical items
  | program statements => allCanonical statements
  | print argument => argument.canonical
  | declare _ initializer => initializer.canonical
  | assign _ source => source.canonical
  | shortIf test consequence => test.canonical && allCanonical consequence
  | ifElse test consequence alternate =>
    test.canonical && (allCanonical consequence && alternate.canonical)
  | whileLoop test body => test.canonical && allCanonical body
  | forLoop declaration test increment body _ =>
    declaration.canonical && (test.canonical && (increment.canonical && allCanonical body))
  | forEach _ collection body => collection.canonical && allCanonical body
  | define _ body => allCanonical body
  | ret expression => expression.canonical
  | call _ args _ => allCanonical args
  | unary op operand _ => op.canonical && operand.canonical
  | binary op left right _ => op.canonical && (left.canonical && right.canonical)
  | conditional consequent test alternate _ =>
    consequent.canonical && (test.canonical && alternate.canonical)
  | array elements _ => allCanonical elements
  | index a i _ => a.canonical && i.canonical
  | null | foreign | bool _ | number _ | var _ | function _ | exit | shortRet | string _ _ => true

/-- Whether every operator in some trees is canonical. -/
def allCanonical : List Node → Bool
  | [] => true
  | n :: rest => n.canonical && allCanonical rest

end

/-! ## Well formed trees -/

theorem isNull_of_isExpr {e : Node} (h : e.isExpr = true) : e.isNull = false := by
  cases e with
  | null => cases h
  | _ => rfl

mutual

/-- An expression with canonical operators is legible. -/
theorem legible_of_isExpr : ∀ {e : Node}, e.isExpr = true → e.canonical = true → e.legible = true
  | bool _, _, _ | number _, _, _ | var _, _, _ | string _ _, _, _ => rfl
  | array _ _, hexpr, h => allLegible_of_allExpr hexpr h
  | call _ _ _, hexpr, h => allLegible_of_allExpr hexpr h
  | index _ _ _, hexpr, h => by
    simp only [isExpr, canonical, Bool.and_eq_true] at hexpr h
    simp [legible, legible_of_isExpr hexpr.1 h.1, legible_of_isExpr hexpr.2 h.2]
  | unary _ _ _, hexpr, h => by
    simp only [isExpr, canonical, Bool.and_eq_true] at hexpr h
    simp [legible, h.1, legible_of_isExpr hexpr h.2]
  | binary _ _ _ _, hexpr, h => by
    simp only [isExpr, canonical, Bool.and_eq_true] at hexpr h
    simp [legible, h.1, isNull_of_isExpr hexpr.2, legible_of_isExpr hexpr.1 h.2.1,
      legible_of_isExpr hexpr.2 h.2.2]
  | conditional _ _ _ _, hexpr, h => by
    simp only [isExpr, canonical, Bool.and_eq_true] at hexpr h
    simp [legible, legible_of_isExpr hexpr.1 h.1, legible_of_isExpr hexpr.2.1 h.2.1,
      legible_of_isExpr hexpr.2.2 h.2.2]

theorem allLegible_of_allExpr : ∀ {es : List Node}, allExpr es = true → allCanonical es = true →
    allLegible es = true
  | [], _, _ => rfl
  | _ :: _, hexpr, h => by
    simp only [allExpr, allCanonical, Bool.and_eq_true] at hexpr h
    simp [allLegible, isList_of_isExpr hexpr.1, legible_of_isExpr hexpr.1 h.1,
      allLegible_of_allExpr hexpr.2 h.2]

end

mutual

/-- A well formed tree with canonical operators is legible. -/
theorem legible_of_formed : ∀ {n : Node}, n.formed = true → n.canonical = true → n.legible = true
  | print argument, hform, h => legible_of_isExpr (e := argument) hform h
  | declare _ initializer, hform, h => legible_of_isExpr (e := initializer) hform h
  | assign _ source, hform, h => legible_of_isExpr (e := source) hform h
  | ret expression, hform, h => legible_of_isExpr (e := expression) hform h
  | call _ _ _, hform, h => allLegible_of_allExpr hform h
  | exit, _, _ | shortRet, _, _ => rfl
  | list _, hform, h => allLegible_of_allFormed hform h
  | define _ _, hform, h => allLegible_of_allFormed hform h
  | shortIf _ _, hform, h => by
    simp only [formed, canonical, Bool.and_eq_true] at hform h
    simp [legible, legible_of_isExpr hform.1 h.1, allLegible_of_allFormed hform.2 h.2]
  | ifElse _ _ _, hform, h => by
    simp only [formed, canonical, Bool.and_eq_true] at hform h
    simp [legible, legible_of_isExpr hform.1 h.1, allLegible_of_allFormed hform.2.1 h.2.1,
      legible_of_formed hform.2.2.2 h.2.2]
  | whileLoop _ _, hform, h => by
    simp only [formed, canonical, Bool.and_eq_true] at hform h
    simp [legible, legible_of_isExpr hform.1 h.1, allLegible_of_allFormed hform.2 h.2]
  | forLoop _ _ _ _ _, hform, h => by
    simp only [formed, canonical, Bool.and_eq_true] at hform h
    simp [legible, legible_of_formed hform.1.2 h.1, legible_of_isExpr hform.2.1 h.2.1,
      legible_of_formed hform.2.2.1.2 h.2.2.1, allLegible_of_allFormed hform.2.2.2 h.2.2.2]
  | forEach _ _ _, hform, h => by
    simp only [formed, canonical, Bool.and_eq_true] at hform h
    simp [legible, legible_of_isExpr hform.1 h.1, allLegible_of_allFormed hform.2 h.2]

theorem allLegible_of_allFormed : ∀ {ns : List Node}, allFormed ns = true → allCanonical ns = true →
    allLegible ns = true
  | [], _, _ => rfl
  | _ :: _, hform, h => by
    simp only [allFormed, allCanonical, Bool.and_eq_true, Bool.not_eq_true'] at hform h
    simp [allLegible, hform.1.1, legible_of_formed hform.1.2 h.1,
      allLegible_of_allFormed hform.2 h.2]

end

/-! ## Optimizing -/

mutual

theorem canonical_eq_every : ∀ n : Node, n.canonical = n.every (fun _ => true) Op.canonical
  | list items => allCanonical_eq_everyAll items
  | program statements => allCanonical_eq_everyAll statements
  | print argument => canonical_eq_every argument
  | declare _ initializer => canonical_eq_every initializer
  | assign _ source => canonical_eq_every source
  | shortIf test consequence => by
    rw [canonical, every, canonical_eq_every test, allCanonical_eq_everyAll consequence]
  | ifElse test consequence alternate => by
    rw [canonical, every, canonical_eq_every test, allCanonical_eq_everyAll consequence,
      canonical_eq_every alternate]
  | whileLoop test body => by
    rw [canonical, every, canonical_eq_every test, allCanonical_eq_everyAll body]
  | forLoop declaration test increment body _ => by
    rw [canonical, every, canonical_eq_every declaration, canonical_eq_every test,
      canonical_eq_every increment, allCanonical_eq_everyAll body]
  | forEach _ collection body => by
    rw [canonical, every, canonical_eq_every collection, allCanonical_eq_everyAll body,
      Bool.true_and]
  | define f body => by
    rw [canonical, every, allCanonical_eq_everyAll body]
    simp
  | ret expression => canonical_eq_every expression
  | call _ args _ => allCanonical_eq_everyAll args
  | unary _ operand _ => by rw [canonical, every, canonical_eq_every operand]
  | binary _ left right _ => by
    rw [canonical, every, canonical_eq_every left, canonical_eq_every right]
  | conditional consequent test alternate _ => by
    rw [canonical, every, canonical_eq_every consequent, canonical_eq_every test,
      canonical_eq_every alternate]
  | array elements _ => allCanonical_eq_everyAll elements
  | index a i _ => by rw [canonical, every, canonical_eq_every a, canonical_eq_every i]
  | null | foreign | bool _ | number _ | var _ | function _ | exit | shortRet | string _ _ => rfl

theorem allCanonical_eq_everyAll : ∀ ns : List Node,
    allCanonical ns = everyAll (fun _ => true) Op.canonical ns
  | [] => rfl
  | n :: rest => by
    rw [allCanonical, everyAll, canonical_eq_every n, allCanonical_eq_everyAll rest]

end

/-- The operators of optimized statements are canonical. -/
theorem allCanonical_optimizeStmts (ns : List Node) (hform : allFormed ns = true)
    (h : allCanonical ns = true) : allCanonical (optimizeStmts ns) = true := by
  rw [allCanonical_eq_everyAll] at h ⊢
  exact everyAll_optimizeStmts (by decide) ns hform h

end Node

/-! ## Operators of surface trees -/

namespace Surface

mutual

/-- Whether every operator in an expression is canonical. -/
def Expr.canonical : Expr → Bool
  | .int _ _ | .float _ _ | .bool _ _ | .string _ _ | .var _ _ | .stray _ => true
  | .array _ elements => Expr.allCanonical elements
  | .index _ a i => a.canonical && i.canonical
  | .call _ _ args => Expr.allCanonical args
  | .unary _ op operand => op.canonical && operand.canonical
  | .binary _ op left right => op.canonical && (left.canonical && right.canonical)
  | .conditional _ consequent test alternate =>
    consequent.canonical && (test.canonical && alternate.canonical)

/-- Whether every operator in some expressions is canonical. -/
def Expr.allCanonical : List Expr → Bool
  | [] => true
  | e :: rest => e.canonical && Expr.allCanonical rest

end

/-- Whether every operator in a binding is canonical. -/
def Binding.canonical (b : Binding) : Bool := b.value.canonical

mutual

/-- Whether every operator in a statement is canonical. -/
def Stmt.canonical : Stmt → Bool
  | .print _ value => value.canonical
  | .declare b | .assign b => b.canonical
  | .branch _ test body rest => test.canonical && (Stmt.allCanonical body && rest.canonical)
  | .whileLoop _ test body => test.canonical && Stmt.allCanonical body
  | .forLoop _ init test update body =>
    init.canonical && (test.canonical && (update.canonical && Stmt.allCanonical body))
  | .forEach _ collection _ body => collection.canonical && Stmt.allCanonical body
  | .function _ _ _ body => Stmt.allCanonical body
  | .exit _ | .stray _ => true
  | .ret _ value => value.all Expr.canonical
  | .call _ _ args => Expr.allCanonical args

/-- Whether every operator in what follows the body of a branch is canonical. -/
def Else.canonical : Else → Bool
  | .absent | .stray _ => true
  | .body body => Stmt.allCanonical body
  | .branch _ test body rest => test.canonical && (Stmt.allCanonical body && rest.canonical)

/-- Whether every operator in some statements is canonical. -/
def Stmt.allCanonical : List Stmt → Bool
  | [] => true
  | s :: rest => s.canonical && Stmt.allCanonical rest

end

/-- Whether every operator in a program is canonical. -/
def Program.canonical (p : Program) : Bool := Stmt.allCanonical p.statements

end Surface

/-! ## Resolution -/

namespace Surface

mutual

theorem Expr.canonical_eq_every : ∀ e : Expr, e.canonical = e.every Op.canonical
  | .int _ _ | .float _ _ | .bool _ _ | .string _ _ | .var _ _ | .stray _ => rfl
  | .array _ elements => Expr.allCanonical_eq_everyAll elements
  | .index _ a i => by
    rw [Expr.canonical, Expr.every, Expr.canonical_eq_every a, Expr.canonical_eq_every i]
  | .call _ _ args => Expr.allCanonical_eq_everyAll args
  | .unary _ _ operand => by rw [Expr.canonical, Expr.every, Expr.canonical_eq_every operand]
  | .binary _ _ left right => by
    rw [Expr.canonical, Expr.every, Expr.canonical_eq_every left, Expr.canonical_eq_every right]
  | .conditional _ consequent test alternate => by
    rw [Expr.canonical, Expr.every, Expr.canonical_eq_every consequent,
      Expr.canonical_eq_every test, Expr.canonical_eq_every alternate]

theorem Expr.allCanonical_eq_everyAll : ∀ es : List Expr,
    Expr.allCanonical es = Expr.everyAll Op.canonical es
  | [] => rfl
  | e :: rest => by
    rw [Expr.allCanonical, Expr.everyAll, Expr.canonical_eq_every e,
      Expr.allCanonical_eq_everyAll rest]

end

mutual

theorem Stmt.canonical_eq_every : ∀ s : Stmt,
    s.canonical = s.every (fun _ => true) Op.canonical
  | .print _ value => Expr.canonical_eq_every value
  | .declare b | .assign b => Expr.canonical_eq_every b.value
  | .branch _ test body rest => by
    rw [Stmt.canonical, Stmt.every, Expr.canonical_eq_every test,
      Stmt.allCanonical_eq_everyAll body, Else.canonical_eq_every rest]
  | .whileLoop _ test body => by
    rw [Stmt.canonical, Stmt.every, Expr.canonical_eq_every test,
      Stmt.allCanonical_eq_everyAll body]
  | .forLoop _ init test update body => by
    rw [Stmt.canonical, Stmt.every, Binding.canonical, Binding.canonical,
      Expr.canonical_eq_every init.value, Expr.canonical_eq_every test,
      Expr.canonical_eq_every update.value, Stmt.allCanonical_eq_everyAll body, Bool.true_and]
  | .forEach _ collection _ body => by
    rw [Stmt.canonical, Stmt.every, Expr.canonical_eq_every collection,
      Stmt.allCanonical_eq_everyAll body, Bool.true_and]
  | .function _ _ _ body => by
    rw [Stmt.canonical, Stmt.every, Stmt.allCanonical_eq_everyAll body]
    simp
  | .exit _ | .stray _ | .ret _ none => rfl
  | .ret _ (some value) => Expr.canonical_eq_every value
  | .call _ _ args => Expr.allCanonical_eq_everyAll args

theorem Else.canonical_eq_every : ∀ rest : Else,
    rest.canonical = rest.every (fun _ => true) Op.canonical
  | .absent | .stray _ => rfl
  | .body body => Stmt.allCanonical_eq_everyAll body
  | .branch _ test body rest => by
    rw [Else.canonical, Else.every, Expr.canonical_eq_every test,
      Stmt.allCanonical_eq_everyAll body, Else.canonical_eq_every rest]

theorem Stmt.allCanonical_eq_everyAll : ∀ ss : List Stmt,
    Stmt.allCanonical ss = Stmt.everyAll (fun _ => true) Op.canonical ss
  | [] => rfl
  | s :: rest => by
    rw [Stmt.allCanonical, Stmt.everyAll, Stmt.canonical_eq_every s,
      Stmt.allCanonical_eq_everyAll rest]

end

end Surface

theorem resolve_canonical {p : Surface.Program} {t : Node} (hp : p.canonical = true)
    (h : resolve p = .ok t) : t.canonical = true := by
  rw [Surface.Program.canonical, Surface.Stmt.allCanonical_eq_everyAll] at hp
  rw [Node.canonical_eq_every]
  exact resolve_every (by decide) hp h

/-! ## Programs -/

/-- The programs that the passes build: those that are resolved, and those that are
optimized from another. -/
inductive Built : Node → Prop where
  | resolved {p : Surface.Program} {t : Node} (hp : p.canonical = true) (h : resolve p = .ok t) :
      Built t
  | optimized {t q : Node} (ht : Built t) (h : optimize t = .ok q) : Built q

theorem Built.isProgram_canonical {t : Node} (h : Built t) :
    t.isProgram = true ∧ t.canonical = true := by
  induction h with
  | resolved hp h => exact ⟨resolve_isProgram h, resolve_canonical hp h⟩
  | @optimized t q _ h ih =>
    rcases optimize_isProgram ih.1 with ⟨hok, hprogram⟩
    obtain rfl : t.optimize = q := Except.ok.inj (hok.symm.trans h)
    refine ⟨hprogram, ?_⟩
    rcases Node.eq_program_of_isProgram ih.1 with ⟨statements, rfl, hformed⟩
    rw [Node.optimize_program]
    exact Node.allCanonical_optimizeStmts statements hformed ih.2

theorem Built.eq_program {t : Node} (h : Built t) : ∃ statements, t = .program statements := by
  rcases Node.eq_program_of_isProgram h.isProgram_canonical.1 with ⟨statements, rfl, -⟩
  exact ⟨statements, rfl⟩

/-- The objects of a program that the passes build tell it. -/
theorem Built.legible {t : Node} (h : Built t) : t.legible = true := by
  rcases h.isProgram_canonical with ⟨hprogram, hcanonical⟩
  rcases Node.eq_program_of_isProgram hprogram with ⟨statements, rfl, hformed⟩
  exact Node.allLegible_of_allFormed hformed hcanonical

end Squishc
