import Mathlib
import Squishc.Compile
import Squishc.Proofs.EmittedScope
import Squishc.Proofs.ReadTree

/-!
# Passes that fit together

Every pass has a meaning for some kinds of nodes only, and none of the types
keeps other nodes away from it.  What the readers give is proper; resolving a
proper tree fails only where it breaks a rule and otherwise gives a well formed
program; optimizing takes well formed programs to well formed programs; and
emission has a meaning for all of these.

Main results:

- Theorem `resolve_of_proper`: a proper tree is resolved or breaks a rule.
- Theorem `optimize_formed`: a well formed program can be optimized and stays one.
- Theorem `pipeline_is_closed`: no pass meets a node that it has no meaning for.
-/

namespace Squishc

namespace Resolve

/-! ## Faults that are broken rules -/

/-- A fault that a program can have which was read from a text. -/
def IsRule (f : ResolveFault) : Prop := ∃ broken pos, f = .rule broken pos

/-- A step that fails only with a broken rule. -/
def Ruled {α : Type} (r : Resolved α) : Prop := Ends r (fun _ => True) IsRule

section Ruled

variable {α β : Type}

theorem Ruled.ok (a : α) : Ruled (.ok a) := trivial

theorem Ruled.rule (broken : RuleBreak) (pos : Pos) :
    Ruled (.error (.rule broken pos) : Resolved α) := ⟨broken, pos, rfl⟩

theorem Ruled.bind {r : Resolved α} {next : α → Resolved β} (h : Ruled r)
    (hnext : ∀ a, Ruled (next a)) : Ruled (r >>= next) :=
  Ends.bind h fun a _ => hnext a

/-- What is known of the result of a step, together with its faults. -/
theorem Ruled.ends {r : Resolved α} {good : α → Prop} (h : Ruled r)
    (hgood : Ends r good AnyFault) : Ends r good IsRule := by
  cases r with
  | ok a => exact hgood
  | error f => exact h

theorem require_ruled (condition : Bool) (broken : RuleBreak) (pos : Pos) :
    Ruled (require condition broken pos) := by
  unfold require
  split
  · exact Ruled.ok ()
  · exact Ruled.rule broken pos

theorem checkArithmetic_ruled (op : Op) (left right : Node) (leftPos rightPos : Pos) :
    Ruled (checkArithmetic op left right leftPos rightPos) := by
  unfold checkArithmetic
  split
  · exact (require_ruled _ _ _).bind fun _ => require_ruled _ _ _
  · apply (require_ruled _ _ _).bind
    intro _
    exact (require_ruled _ _ _).bind fun _ => require_ruled _ _ _

theorem unary_ruled (strict : Bool) (op : Op) (operand : Node) (pos : Pos) :
    Ruled (unary strict op operand pos) := by
  unfold unary
  split
  · exact (require_ruled _ _ _).bind fun _ => Ruled.ok _
  · exact (require_ruled _ _ _).bind fun _ => Ruled.ok _

theorem binary_ruled (strict : Bool) (op : Op) (left right : Node) (leftPos rightPos : Pos) :
    Ruled (binary strict op left right leftPos rightPos) := by
  unfold binary
  split
  · apply (require_ruled _ _ _).bind
    intro _
    exact (require_ruled _ _ _).bind fun _ => Ruled.ok _
  · split
    · split
      · exact (require_ruled _ _ _).bind fun _ => Ruled.ok _
      · exact Ruled.ok _
    · split
      · exact (checkArithmetic_ruled _ _ _ _ _).bind fun _ => Ruled.ok _
      · exact Ruled.ok _

theorem checkElements_ruled (first : Ty) (elements : List (Node × Pos)) :
    Ruled (checkElements first elements) := by
  induction elements with
  | nil => exact Ruled.ok ()
  | cons element rest ih => exact (require_ruled _ _ _).bind fun _ => ih

theorem array_ruled (strict : Bool) (elements : List Node) (positions : List Pos) :
    Ruled (array strict elements positions) := by
  unfold array
  split
  · exact Ruled.ok _
  · split
    · exact (checkElements_ruled _ _).bind fun _ => Ruled.ok _
    · exact Ruled.ok _

theorem index_ruled (strict : Bool) (a i : Node) (arrayPos indexPos : Pos) :
    Ruled (index strict a i arrayPos indexPos) := by
  unfold index
  split
  · apply (require_ruled _ _ _).bind
    intro _
    split
    · exact Ruled.ok _
    · exact Ruled.ok _
    · exact Ruled.ok _
    · exact Ruled.rule _ _
  · split
    · exact Ruled.ok _
    · exact Ruled.ok _

theorem entity_ruled (chain : Chain) (name : String) (pos : Pos) :
    Ruled (entity chain name pos) := by
  unfold entity
  split
  · exact Ruled.ok _
  · exact Ruled.rule _ _

theorem variableUse_ruled (chain : Chain) (name : String) (pos : Pos) :
    Ruled (variableUse chain name pos) := by
  apply (entity_ruled chain name pos).bind
  intro e
  cases e with
  | var v => exact Ruled.ok v
  | function f => exact Ruled.rule _ _

theorem assignTarget_ruled (chain : Chain) (name : String) (pos : Pos) :
    Ruled (assignTarget chain name pos) := by
  apply (entity_ruled chain name pos).bind
  intro e
  cases e with
  | var v => exact Ruled.ok v
  | function f => exact Ruled.rule _ _

theorem calledFunction_ruled (chain : Chain) (name : String) (pos : Pos) :
    Ruled (calledFunction chain name pos) := by
  apply (entity_ruled chain name pos).bind
  intro e
  cases e with
  | var v => exact Ruled.rule _ _
  | function f => exact Ruled.ok f

theorem call_ruled (f : Function) (args : List Node) (pos : Pos) : Ruled (call f args pos) :=
  (require_ruled _ _ _).bind fun _ => Ruled.ok _

theorem declare_ruled (env : Env) (name : String) (e : Entity) (pos : Pos) :
    Ruled (env.declare name e pos) := by
  unfold Env.declare
  split
  · exact Ruled.ok env
  · split
    · exact Ruled.rule _ _
    · exact Ruled.ok _

theorem declareVariable_ruled (env : Env) (name : String) (type : Ty) (pos : Pos) :
    Ruled (env.declareVariable name type pos) :=
  (declare_ruled _ _ _ _).bind fun _ => Ruled.ok _

theorem declareParams_ruled (env : Env) (params : List (Surface.Param × Variable)) :
    Ruled (declareParams env params) := by
  induction params generalizing env with
  | nil => exact Ruled.ok env
  | cons p rest ih => exact (declare_ruled _ _ _ _).bind fun next => ih next

end Ruled

/-! ## Resolving proper trees -/

mutual

/-- A proper expression breaks a rule, or its node can be written. -/
theorem expr_of_proper (chain : Chain) : ∀ e : Surface.Expr, e.proper = true →
    Ends (expr chain e) (fun n => n.writable = true) IsRule
  | .int _ _ => id
  | .float _ _ | .bool _ _ | .string _ _ => fun _ => rfl
  | .var pos name => fun _ => Ends.bind (variableUse_ruled chain name pos) fun _ _ => rfl
  | .array _ elements => by
    intro h
    apply (exprs_of_proper chain elements h).bind
    intro nodes hnodes
    apply ((array_ruled _ _ _).ends (array_ends ignores_anyFault _ _ _)).mono
    rintro n ⟨type, rfl⟩
    exact hnodes
  | .index _ a i => by
    intro h
    simp only [Surface.Expr.proper, Bool.and_eq_true] at h
    apply (expr_of_proper chain a h.1).bind
    intro arrayNode harray
    apply (expr_of_proper chain i h.2).bind
    intro indexNode hindex
    apply ((index_ruled _ _ _ _ _).ends (index_ends ignores_anyFault _ _ _ _ _)).mono
    rintro n ⟨type, rfl⟩
    simp [Node.writable, harray, hindex]
  | .call pos callee args => by
    intro h
    apply Ends.bind (calledFunction_ruled chain callee pos)
    intro f _
    apply (exprs_of_proper chain args h).bind
    intro nodes hnodes
    apply ((call_ruled _ _ _).ends (call_ends ignores_anyFault _ _ _)).mono
    rintro n ⟨rfl, -⟩
    exact hnodes
  | .unary _ _ operand => by
    intro h
    apply (expr_of_proper chain operand h).bind
    intro m hm
    apply ((unary_ruled _ _ _ _).ends (unary_ends ignores_anyFault _ _ _ _)).mono
    rintro n ⟨op, type, rfl⟩
    exact hm
  | .binary _ _ left right => by
    intro h
    simp only [Surface.Expr.proper, Bool.and_eq_true] at h
    apply (expr_of_proper chain left h.1).bind
    intro l hl
    apply (expr_of_proper chain right h.2).bind
    intro r hr
    apply ((binary_ruled _ _ _ _ _ _).ends (binary_ends ignores_anyFault _ _ _ _ _ _)).mono
    rintro n ⟨type, rfl⟩
    simp [Node.writable, hl, hr]
  | .conditional _ consequent test alternate => by
    intro h
    simp only [Surface.Expr.proper, Bool.and_eq_true] at h
    apply (expr_of_proper chain consequent h.1).bind
    intro c hc
    apply (expr_of_proper chain test h.2.1).bind
    intro t ht
    apply Ends.bind (require_ruled _ _ _)
    intro _ _
    apply (expr_of_proper chain alternate h.2.2).bind
    intro a ha
    refine Ends.pure ?_
    simp [Node.writable, hc, ht, ha]
  | .stray _ => fun h => by cases h

theorem exprs_of_proper (chain : Chain) : ∀ es : List Surface.Expr,
    Surface.Expr.allProper es = true →
    Ends (exprs chain es) (fun ns => Node.allWritable ns = true) IsRule
  | [], _ => rfl
  | e :: rest, h => by
    simp only [Surface.Expr.allProper, Bool.and_eq_true] at h
    apply (expr_of_proper chain e h.1).bind
    intro n hn
    apply (exprs_of_proper chain rest h.2).bind
    intro others hothers
    refine Ends.pure ?_
    simp [Node.allWritable, hn, hothers]

end

theorem test_of_proper (env : Env) {e : Surface.Expr} (h : e.proper = true) :
    Ends (test env e) (fun n => n.writable = true) IsRule := by
  apply (expr_of_proper env.chain e h).bind
  intro n hn
  apply Ends.bind (require_ruled _ _ _)
  intro _ _
  exact Ends.pure hn

theorem declaration_of_proper (env : Env) {b : Surface.Binding} (h : b.proper = true) :
    Ends (declaration env b) (fun r => r.1.writable = true) IsRule := by
  apply (expr_of_proper env.chain b.value h).bind
  intro n hn
  apply Ends.bind (declareVariable_ruled _ _ _ _)
  intro ⟨v, next⟩ _
  exact Ends.pure hn

theorem assignment_of_proper (env : Env) {b : Surface.Binding} (h : b.proper = true) :
    Ends (assignment env b) (fun n => n.writable = true) IsRule := by
  apply Ends.bind (assignTarget_ruled _ _ _)
  intro v _
  apply (expr_of_proper env.chain b.value h).bind
  intro n hn
  apply Ends.bind (require_ruled _ _ _)
  intro _ _
  exact Ends.pure hn

mutual

/-- A proper statement breaks a rule, or its node can be written. -/
theorem stmt_of_proper (env : Env) : ∀ s : Surface.Stmt, s.proper = true →
    Ends (stmt env s) (fun r => r.1.writable = true) IsRule
  | .print _ value, h => (expr_of_proper env.chain value h).bind fun _ hn => hn
  | .declare b, h => declaration_of_proper env h
  | .assign b, h => (assignment_of_proper env h).bind fun _ hn => hn
  | .branch _ e body rest, h => by
    simp only [Surface.Stmt.proper, Bool.and_eq_true] at h
    apply (test_of_proper env h.1).bind
    intro t ht
    apply (stmts_of_proper env body h.2.1).bind
    intro ⟨nodes, next⟩ hnodes
    apply (alternative_of_proper next rest h.2.2).bind
    intro ⟨alternate?, last⟩ halternate
    cases alternate? with
    | none => simp_all [Ends, pure, Except.pure, Node.writable]
    | some alternate => simp_all [Ends, pure, Except.pure, Node.writable]
  | .whileLoop _ e body, h => by
    simp only [Surface.Stmt.proper, Bool.and_eq_true] at h
    apply (test_of_proper env h.1).bind
    intro t ht
    apply (stmts_of_proper _ body h.2).bind
    intro ⟨nodes, inner⟩ hnodes
    refine Ends.pure ?_
    simp_all [Node.writable]
  | .forLoop _ init e update body, h => by
    simp only [Surface.Stmt.proper, Bool.and_eq_true] at h
    apply (declaration_of_proper _ h.1).bind
    intro ⟨d, inner⟩ hd
    apply (test_of_proper inner h.2.1).bind
    intro t ht
    apply (assignment_of_proper inner h.2.2.1).bind
    intro increment hincrement
    apply (stmts_of_proper inner body h.2.2.2).bind
    intro ⟨nodes, last⟩ hnodes
    refine Ends.pure ?_
    simp_all [Node.writable]
  | .forEach pos e name body, h => by
    simp only [Surface.Stmt.proper, Bool.and_eq_true] at h
    apply (expr_of_proper env.chain e h.1).bind
    intro collection hcollection
    cases itemType? collection.type with
    | none => exact ⟨_, _, rfl⟩
    | some item =>
      apply Ends.bind (declareVariable_ruled _ _ _ _)
      intro ⟨v, inner⟩ _
      apply (stmts_of_proper inner body h.2).bind
      intro ⟨nodes, last⟩ hnodes
      refine Ends.pure ?_
      simp_all [Node.writable]
  | .function pos name params body, h => by
    apply Ends.bind (declare_ruled _ _ _ _)
    intro next _
    apply Ends.bind (declareParams_ruled _ _)
    intro inner _
    apply (stmts_of_proper inner body h).bind
    intro ⟨nodes, last⟩ hnodes
    exact Ends.pure hnodes
  | .exit pos, _ => Ends.bind (require_ruled _ _ _) fun _ _ => rfl
  | .ret pos none, _ => Ends.bind (require_ruled _ _ _) fun _ _ => rfl
  | .ret pos (some e), h => by
    apply Ends.bind (require_ruled _ _ _)
    intro _ _
    exact (expr_of_proper env.chain e h).bind fun _ hn => hn
  | .call pos callee args, h => by
    apply Ends.bind (calledFunction_ruled env.chain callee pos)
    intro f _
    apply (exprs_of_proper env.chain args h).bind
    intro nodes hnodes
    apply ((call_ruled _ _ _).ends (call_ends ignores_anyFault f nodes pos)).bind
    rintro n ⟨rfl, -⟩
    exact Ends.pure hnodes
  | .stray _, h => by cases h

theorem stmts_of_proper (env : Env) : ∀ ss : List Surface.Stmt,
    Surface.Stmt.allProper ss = true →
    Ends (stmts env ss) (fun r => Node.allWritable r.1 = true) IsRule
  | [], _ => rfl
  | s :: rest, h => by
    simp only [Surface.Stmt.allProper, Bool.and_eq_true] at h
    apply (stmt_of_proper env s h.1).bind
    intro ⟨n, next⟩ hn
    apply (stmts_of_proper next rest h.2).bind
    intro ⟨others, last⟩ hothers
    refine Ends.pure ?_
    simp_all [Node.allWritable]

theorem alternative_of_proper (env : Env) : ∀ rest : Surface.Else, rest.proper = true →
    Ends (alternative env rest) (fun r => ∀ n ∈ r.1, n.writable = true) IsRule
  | .absent, _ => by simp [alternative, Ends]
  | .body body, h => by
    apply (stmts_of_proper env body h).bind
    intro ⟨nodes, next⟩ hnodes
    refine Ends.pure ?_
    simp_all [Node.writable]
  | .branch _ e body rest, h => by
    simp only [Surface.Else.proper, Bool.and_eq_true] at h
    apply (test_of_proper env h.1).bind
    intro t ht
    apply (stmts_of_proper env body h.2.1).bind
    intro ⟨nodes, next⟩ hnodes
    apply (alternative_of_proper next rest h.2.2).bind
    intro ⟨alternate?, last⟩ halternate
    cases alternate? with
    | none => simp_all [Ends, pure, Except.pure, Node.writable]
    | some alternate => simp_all [Ends, pure, Except.pure, Node.writable]
  | .stray _, h => by cases h

end

end Resolve

/-- A proper tree breaks a rule, or it is resolved to a tree that can be
written. -/
theorem resolve_of_proper {p : Surface.Program} (h : Surface.Stmt.allProper p.statements = true) :
    Ends (resolve p) (fun t => t.writable = true) Resolve.IsRule := by
  apply (Resolve.stmts_of_proper .initial p.statements h).bind
  intro ⟨nodes, env⟩ hnodes
  exact Ends.pure hnodes

/-! ## Well formed programs -/

/-- Whether a node is a program of well formed statements. -/
def Node.isProgram : Node → Bool
  | program statements => allFormed statements
  | _ => false

theorem Node.eq_program_of_isProgram {t : Node} (h : t.isProgram = true) :
    ∃ statements, t = program statements ∧ allFormed statements = true := by
  cases t with
  | program statements => exact ⟨statements, rfl, h⟩
  | _ => cases h

theorem resolve_isProgram {p : Surface.Program} {t : Node} (h : resolve p = .ok t) :
    t.isProgram = true := by
  rcases resolve_settled h with ⟨nodes, rfl, hformed, -⟩
  exact hformed

/-- A well formed program can be optimized, and stays one. -/
theorem optimize_isProgram {t : Node} (h : t.isProgram = true) :
    optimize t = .ok t.optimize ∧ t.optimize.isProgram = true := by
  rcases Node.eq_program_of_isProgram h with ⟨statements, rfl, hformed⟩
  constructor
  · have hnone : (Node.program statements).obstacle? = none :=
      Node.anyObstacle?_of_allFormed hformed
    rw [optimize, hnone]
  · rw [Node.optimize_program]
    exact (Node.replaces_optimizeStmts statements hformed).formed

/-- Optimizes a tree the given number of times. -/
def optimizeTimes : Nat → Node → Except Failure Node
  | 0, t => .ok t
  | times + 1, t => do
    let t ← optimize t
    optimizeTimes times t

theorem optimizeTimes_isProgram (times : Nat) {t : Node} (h : t.isProgram = true) :
    ∃ q, optimizeTimes times t = .ok q ∧ q.isProgram = true := by
  induction times generalizing t with
  | zero => exact ⟨t, rfl, h⟩
  | succ times ih =>
    rcases optimize_isProgram h with ⟨hok, hformed⟩
    rw [optimizeTimes, hok]
    exact ih hformed

/-- Emission has a meaning for every node of a well formed program. -/
theorem generate_isProgram {t : Node} (h : t.isProgram = true) :
    (∃ text, generate t = .ok text) ∨ generate t = .error .digitLimit := by
  rcases Node.eq_program_of_isProgram h with ⟨statements, rfl, hformed⟩
  cases hfault : Js.stmtsFault? statements with
  | none =>
    left
    have hemit : ∃ e, Js.emit (Node.program statements).toStatements = .ok e := by
      simp [Js.emit, Node.toStatements, hfault]
    rcases hemit with ⟨e, he⟩
    exact ⟨_, generate_eq he⟩
  | some fault =>
    right
    have hdigits := Js.onlyDigits_stmtsFault hformed fault hfault
    apply generate_digitLimit
    simp [Js.emit, Node.toStatements, hfault, hdigits]

/-! ## From a text to its program -/

theorem analyze_of_parse {source : String} {p : Surface.Program}
    (h : Surface.parse source = .ok p) : analyze source = (resolve p).mapError .ofResolve := by
  rw [analyze, h]
  rfl

/-- No pass meets a node that it has no meaning for.  A text that is read as a
program is refused by resolution only for a rule that it breaks; the resolved
tree can be optimized any number of times; and each of these trees is a well
formed program, which can be emitted unless a number is too long to be written. -/
theorem pipeline_is_closed {source : String} {p : Surface.Program}
    (h : Surface.parse source = .ok p) :
    (∀ f, analyze source = .error f → ∃ d, f = .refused d) ∧
    ∀ t, analyze source = .ok t → ∀ times, ∃ q,
      optimizeTimes times t = .ok q ∧ q.isProgram = true ∧
      ((∃ text, generate q = .ok text) ∨ generate q = .error .digitLimit) := by
  have hends := resolve_of_proper (Surface.parse_proper h)
  rw [analyze_of_parse h]
  cases hresolve : resolve p with
  | error fault =>
    rcases hends.error hresolve with ⟨broken, pos, rfl⟩
    simp [Except.mapError, Failure.ofResolve]
  | ok tree =>
    constructor
    · intro f hf
      cases hf
    · intro t ht times
      cases ht
      rcases optimizeTimes_isProgram times (resolve_isProgram hresolve) with ⟨q, hq, hformed⟩
      exact ⟨q, hq, hformed, generate_isProgram hformed⟩

/-- A loop that optimizing dissolves, around a branch that is decided only then. -/
def dissolvingSource : String :=
  "for pencil i = 0; stop i < 2 fastfwd i = i + 1; if i == 1: speak 2 ** 3; else speak [i,]; " ++
  "stop stop"

/-- The surface tree of that text. -/
def dissolvingSurface : Surface.Program :=
  ⟨[.forLoop ⟨1, 1⟩ ⟨⟨1, 5⟩, "i", .int ⟨1, 16⟩ 0⟩
    (.binary ⟨1, 24⟩ .lt (.var ⟨1, 24⟩ "i") (.int ⟨1, 28⟩ 2))
    ⟨⟨1, 38⟩, "i", .binary ⟨1, 42⟩ .add (.var ⟨1, 42⟩ "i") (.int ⟨1, 46⟩ 1)⟩
    [.branch ⟨1, 49⟩ (.binary ⟨1, 52⟩ .eq (.var ⟨1, 52⟩ "i") (.int ⟨1, 57⟩ 1))
      [.print ⟨1, 60⟩ (.binary ⟨1, 66⟩ .pow (.int ⟨1, 66⟩ 2) (.int ⟨1, 71⟩ 3))]
      (.body [.print ⟨1, 79⟩ (.array ⟨1, 85⟩ [.var ⟨1, 86⟩ "i"])])]]⟩

/-- The typed tree of that text. -/
def dissolvingTree : Node :=
  .program [.forLoop (.declare ⟨0, "i", .int⟩ (.number (.int 0)))
    (.binary .lt (.var ⟨0, "i", .int⟩) (.number (.int 2)) .boolean)
    (.assign ⟨0, "i", .int⟩
      (.binary .add (.var ⟨0, "i", .int⟩) (.number (.int 1)) .int))
    [.ifElse (.binary .eq (.var ⟨0, "i", .int⟩) (.number (.int 1)) .boolean)
      [.print (.binary .pow (.number (.int 2)) (.number (.int 3)) .int)]
      (.list [.print (.array [.var ⟨0, "i", .int⟩] (.array .int))])] false]

theorem dissolvingSource_is_closed :
    Surface.parse dissolvingSource = .ok dissolvingSurface ∧
    analyze dissolvingSource = .ok dissolvingTree ∧
    ∀ times, ∃ q, optimizeTimes times dissolvingTree = .ok q ∧ q.isProgram = true ∧
      ((∃ text, generate q = .ok text) ∨ generate q = .error .digitLimit) := by
  have hparse : Surface.parse dissolvingSource = .ok dissolvingSurface := by cbv
  have hanalyze : analyze dissolvingSource = .ok dissolvingTree := by
    rw [analyze_of_parse hparse]
    rfl
  exact ⟨hparse, hanalyze, (pipeline_is_closed hparse).2 dissolvingTree hanalyze⟩

end Squishc
