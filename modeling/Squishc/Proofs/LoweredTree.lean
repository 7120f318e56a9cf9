import Squishc.Proofs.JsNaming
import Squishc.Proofs.Walk

/-!
# Emitted trees

Emission passes a naming along and gives names as it meets entities.  `Lowered`
describes the outcome by the names that the entities have in the end, without the
order in which they were given.  What follows about emitted programs rests on
this relation alone.

Main results:

- Theorem `grows_lowerStmts`: emission keeps all names that were given.
- Theorem `lowered_lowerStmts`: emission gives a program of the tree.
- Theorem `emit_lowered`: well formed statements have a program, unless a number is
  too long to be written.
-/

namespace Squishc.Js

/-! ## Emission only gives names -/

open Naming

mutual

theorem grows_lowerExpr : ∀ (e : Node) (n : Naming), n.Grows (lowerExpr e n).2
  | .var v, n => grows_name n (.var v)
  | .unary _ operand _, n => grows_lowerExpr operand n
  | .binary _ left right _, n => (grows_lowerExpr left n).trans (grows_lowerExpr right _)
  | .conditional consequent test alternate _, n =>
    ((grows_lowerExpr test n).trans (grows_lowerExpr consequent _)).trans
      (grows_lowerExpr alternate _)
  | .call callee args _, n => (grows_name n (.function callee)).trans (grows_lowerExprs args _)
  | .array elements _, n => grows_lowerExprs elements n
  | .index array index _, n => (grows_lowerExpr array n).trans (grows_lowerExpr index _)
  | .null, n | .foreign, n | .bool _, n | .number _, n | .function _, n | .list _, n
  | .program _, n | .print _, n | .declare _ _, n | .assign _ _, n | .shortIf _ _, n
  | .ifElse _ _ _, n | .whileLoop _ _, n | .forLoop _ _ _ _ _, n | .forEach _ _ _, n
  | .define _ _, n | .exit, n | .ret _, n | .shortRet, n | .string _ _, n => .refl n

theorem grows_lowerExprs : ∀ (es : List Node) (n : Naming), n.Grows (lowerExprs es n).2
  | [], n => .refl n
  | e :: rest, n => (grows_lowerExpr e n).trans (grows_lowerExprs rest _)

end

theorem grows_lowerLoop (item : Name) (node : Node) (collection : Expr) (n : Naming) :
    n.Grows (lowerLoop item node collection n).2 := by
  unfold lowerLoop
  split
  · split
    · exact .refl n
    · exact grows_fresh n "limit"
  · exact .refl n
  · exact .refl n

mutual

theorem grows_lowerStmt : ∀ (inBranch : Bool) (s : Node) (n : Naming),
    n.Grows (lowerStmt inBranch s n).2
  | _, .print argument, n => grows_lowerExpr argument n
  | _, .declare v initializer, n => (grows_lowerExpr initializer n).trans (grows_name _ (.var v))
  | _, .assign target source, n => (grows_name n (.var target)).trans (grows_lowerExpr source _)
  | _, .shortIf test consequence, n =>
    (grows_lowerExpr test n).trans (grows_lowerStmts true consequence _)
  | _, .ifElse test consequence alternate, n =>
    ((grows_lowerExpr test n).trans (grows_lowerStmts true consequence _)).trans
      (grows_lowerElse alternate _)
  | _, .whileLoop test body, n => (grows_lowerExpr test n).trans (grows_lowerStmts false body _)
  | inBranch, .forLoop declaration _ _ body true, n =>
    (grows_lowerStmt inBranch declaration n).trans (grows_lowerStmts inBranch body _)
  | inBranch, .forLoop declaration test increment body false, n =>
    (((grows_lowerStmt inBranch declaration n).trans (grows_lowerExpr test _)).trans
      (grows_lowerStmts false body _)).trans (grows_lowerStmt inBranch increment _)
  | _, .forEach iterator collection body, n =>
    (((grows_name n (.var iterator)).trans (grows_lowerExpr collection _)).trans
      (grows_lowerLoop _ collection _ _)).trans (grows_lowerStmts false body _)
  | _, .define f body, n =>
    ((grows_name n (.function f)).trans (grows_nameAll _ f.params)).trans
      (grows_lowerStmts false body _)
  | _, .call callee args _, n => (grows_name n (.function callee)).trans (grows_lowerExprs args _)
  | _, .ret expression, n => grows_lowerExpr expression n
  | _, .null, n | _, .foreign, n | _, .bool _, n | _, .number _, n | _, .var _, n
  | _, .function _, n | _, .list _, n | _, .program _, n | _, .exit, n | _, .shortRet, n
  | _, .unary _ _ _, n | _, .binary _ _ _ _, n | _, .conditional _ _ _ _, n | _, .string _ _, n
  | _, .array _ _, n | _, .index _ _ _, n => .refl n

theorem grows_lowerElse : ∀ (s : Node) (n : Naming), n.Grows (lowerElse s n).2
  | .shortIf test consequence, n =>
    (grows_lowerExpr test n).trans (grows_lowerStmts true consequence _)
  | .ifElse test consequence alternate, n =>
    ((grows_lowerExpr test n).trans (grows_lowerStmts true consequence _)).trans
      (grows_lowerElse alternate _)
  | .list items, n => grows_lowerStmts true items n
  | .null, n | .foreign, n | .bool _, n | .number _, n | .var _, n | .function _, n
  | .program _, n | .print _, n | .declare _ _, n | .assign _ _, n | .whileLoop _ _, n
  | .forLoop _ _ _ _ _, n | .forEach _ _ _, n | .define _ _, n | .exit, n | .ret _, n
  | .shortRet, n | .call _ _ _, n | .unary _ _ _, n | .binary _ _ _ _, n
  | .conditional _ _ _ _, n | .string _ _, n | .array _ _, n | .index _ _ _, n => .refl n

theorem grows_lowerStmts : ∀ (inBranch : Bool) (ss : List Node) (n : Naming),
    n.Grows (lowerStmts inBranch ss n).2
  | _, [], n => .refl n
  | inBranch, s :: rest, n =>
    (grows_lowerStmt inBranch s n).trans (grows_lowerStmts inBranch rest _)

end

/-! ## Programs of a tree -/

/-- The names are the texts of the entities, in some order. -/
structure Spells (final : Naming) (entities : List Entity) (names : List String) : Prop where
  sound : ∀ name ∈ names, ∃ e ∈ entities, final.Labels e name
  complete : ∀ e ∈ entities, ∃ name ∈ names, final.Labels e name

/-- A loop over a collection with its item and its body.  The name of a limit is not
the name of an entity. -/
inductive ItemLoop (final : Naming) (item : Name) (collection : Expr) (body : List Stmt) :
    Stmt → Prop
  | countUp : ItemLoop final item collection body (.countUp item collection body)
  | countTo {limit : Name} : (∀ p ∈ final.names, p.2.index ≠ limit.index) →
    ItemLoop final item collection body (.countTo item limit collection body)
  | forOf {guarded : Bool} : ItemLoop final item collection body (.forOf item collection guarded body)

mutual

/-- Statements that are the program of a node that stands directly in a branch or
not. -/
inductive Lowered (final : Naming) : Bool → Node → List Stmt → Prop
  | print {inBranch argument e} : Spells final argument.mentioned e.names →
    Lowered final inBranch (.print argument) [.log e]
  | declare {inBranch v initializer name e} : Spells final initializer.mentioned e.names →
    final.find? (.var v) = some name →
    Lowered final inBranch (.declare v initializer) [.declare (binderFor inBranch) name e]
  | assign {inBranch target source name e} : final.find? (.var target) = some name →
    Spells final source.mentioned e.names →
    Lowered final inBranch (.assign target source) [.assign name e]
  | shortIf {inBranch test consequence t body} : Spells final test.mentioned t.names →
    LoweredAll final true consequence body →
    Lowered final inBranch (.shortIf test consequence) [.branch t body .absent]
  | ifElse {inBranch test consequence alternate t body rest} :
    Spells final test.mentioned t.names → LoweredAll final true consequence body →
    LoweredElse final alternate rest →
    Lowered final inBranch (.ifElse test consequence alternate) [.branch t body rest]
  | whileLoop {inBranch test body t stmts} : Spells final test.mentioned t.names →
    LoweredAll final false body stmts →
    Lowered final inBranch (.whileLoop test body) [.whileLoop t stmts]
  | unrolled {inBranch declaration test increment body header stmts} :
    declaration.isDeclaration = true → Lowered final inBranch declaration header →
    LoweredAll final inBranch body stmts →
    Lowered final inBranch (.forLoop declaration test increment body true) (header ++ stmts)
  | rolled {inBranch declaration test increment body header t stmts last} :
    declaration.isDeclaration = true → Lowered final inBranch declaration header →
    Spells final test.mentioned t.names → LoweredAll final false body stmts →
    increment.isAssignment = true → Lowered final inBranch increment last →
    Lowered final inBranch (.forLoop declaration test increment body false)
      (header ++ [.whileLoop t (stmts ++ last)])
  | forEach {inBranch iterator collection body item e stmts loop} :
    final.find? (.var iterator) = some item → Spells final collection.mentioned e.names →
    LoweredAll final false body stmts → ItemLoop final item e stmts loop →
    Lowered final inBranch (.forEach iterator collection body) [loop]
  | define {inBranch f body name params stmts} : final.find? (.function f) = some name →
    List.Forall₂ (fun v param => final.find? (.var v) = some param) f.params params →
    LoweredAll final false body stmts →
    Lowered final inBranch (.define f body) [.function inBranch name params stmts]
  | call {inBranch callee args ty name es} : final.find? (.function callee) = some name →
    Spells final (Node.mentionedAll args) (namesAll es) →
    Lowered final inBranch (.call callee args ty) [.call name es]
  | exit {inBranch} : Lowered final inBranch .exit [.exit]
  | ret {inBranch expression e} : Spells final expression.mentioned e.names →
    Lowered final inBranch (.ret expression) [.ret e]
  | shortRet {inBranch} : Lowered final inBranch .shortRet [.shortRet]

/-- The rest of a branch that is the program of its alternative. -/
inductive LoweredElse (final : Naming) : Node → Else → Prop
  | shortIf {test consequence t body} : Spells final test.mentioned t.names →
    LoweredAll final true consequence body →
    LoweredElse final (.shortIf test consequence) (.branch t body .absent)
  | ifElse {test consequence alternate t body rest} : Spells final test.mentioned t.names →
    LoweredAll final true consequence body → LoweredElse final alternate rest →
    LoweredElse final (.ifElse test consequence alternate) (.branch t body rest)
  | list {items body} : LoweredAll final true items body →
    LoweredElse final (.list items) (.body body)

/-- Statements that are the program of some nodes, one after the other. -/
inductive LoweredAll (final : Naming) : Bool → List Node → List Stmt → Prop
  | nil {inBranch} : LoweredAll final inBranch [] []
  | cons {inBranch n rest stmts others} : Lowered final inBranch n stmts →
    LoweredAll final inBranch rest others →
    LoweredAll final inBranch (n :: rest) (stmts ++ others)

end

namespace Spells

variable {final : Naming} {es fs : List Entity} {names others : List String}

theorem nil : Spells final [] [] := ⟨by simp, by simp⟩

theorem append (h : Spells final es names) (h' : Spells final fs others) :
    Spells final (es ++ fs) (names ++ others) := by
  constructor
  · intro name hname
    rcases List.mem_append.mp hname with hname | hname
    · rcases h.sound name hname with ⟨e, he, hlabel⟩
      exact ⟨e, List.mem_append_left _ he, hlabel⟩
    · rcases h'.sound name hname with ⟨e, he, hlabel⟩
      exact ⟨e, List.mem_append_right _ he, hlabel⟩
  · intro e he
    rcases List.mem_append.mp he with he | he
    · rcases h.complete e he with ⟨name, hname, hlabel⟩
      exact ⟨name, List.mem_append_left _ hname, hlabel⟩
    · rcases h'.complete e he with ⟨name, hname, hlabel⟩
      exact ⟨name, List.mem_append_right _ hname, hlabel⟩

/-- The order of the entities is of no importance. -/
theorem perm (h : Spells final es names) (hperm : es.Perm fs) : Spells final fs names := by
  constructor
  · intro name hname
    rcases h.sound name hname with ⟨e, he, hlabel⟩
    exact ⟨e, hperm.mem_iff.mp he, hlabel⟩
  · intro e he
    exact h.complete e (hperm.mem_iff.mpr he)

theorem singleton {e : Entity} {name : Name} (h : final.find? e = some name) :
    Spells final [e] [name.text] := by
  have hlabel : final.Labels e name.text := ⟨name, h, rfl⟩
  constructor
  · intro text htext
    rw [List.mem_singleton.mp htext]
    exact ⟨e, List.mem_singleton_self e, hlabel⟩
  · intro f hf
    rw [List.mem_singleton.mp hf]
    exact ⟨name.text, List.mem_singleton_self _, hlabel⟩

end Spells

/-! ## Emission gives a program -/

mutual

theorem spells_lowerExpr {final : Naming} : ∀ (e : Node) (n : Naming),
    (lowerExpr e n).2.Extends final → Spells final e.mentioned (lowerExpr e n).1.names
  | .var v, n, h => .singleton (h.find? (find?_name n (.var v)))
  | .unary _ operand _, n, h => spells_lowerExpr operand n h
  | .binary _ left right _, n, h =>
    (spells_lowerExpr left n ((grows_lowerExpr right _).extends_.trans h)).append
      (spells_lowerExpr right _ h)
  | .conditional consequent test alternate _, n, h => by
    have hconsequent := (grows_lowerExpr alternate _).extends_.trans h
    have htest := (grows_lowerExpr consequent _).extends_.trans hconsequent
    refine ((spells_lowerExpr test n htest).append
      ((spells_lowerExpr consequent _ hconsequent).append (spells_lowerExpr alternate _ h))).perm ?_
    -- the test comes first in the program and second in the tree
    rw [Node.mentioned, ← List.append_assoc, ← List.append_assoc]
    exact List.perm_append_comm.append_right _
  | .call callee args _, n, h =>
    (Spells.singleton (((grows_lowerExprs args _).extends_.trans h).find?
      (find?_name n (.function callee)))).append (spells_lowerExprs args _ h)
  | .array elements _, n, h => spells_lowerExprs elements n h
  | .index array index _, n, h =>
    (spells_lowerExpr array n ((grows_lowerExpr index _).extends_.trans h)).append
      (spells_lowerExpr index _ h)
  | .null, _, _ | .foreign, _, _ | .bool _, _, _ | .number _, _, _ | .function _, _, _
  | .list _, _, _ | .program _, _, _ | .print _, _, _ | .declare _ _, _, _ | .assign _ _, _, _
  | .shortIf _ _, _, _ | .ifElse _ _ _, _, _ | .whileLoop _ _, _, _ | .forLoop _ _ _ _ _, _, _
  | .forEach _ _ _, _, _ | .define _ _, _, _ | .exit, _, _ | .ret _, _, _ | .shortRet, _, _
  | .string _ _, _, _ => .nil

theorem spells_lowerExprs {final : Naming} : ∀ (es : List Node) (n : Naming),
    (lowerExprs es n).2.Extends final →
      Spells final (Node.mentionedAll es) (namesAll (lowerExprs es n).1)
  | [], _, _ => .nil
  | e :: rest, n, h =>
    (spells_lowerExpr e n ((grows_lowerExprs rest _).extends_.trans h)).append
      (spells_lowerExprs rest _ h)

end

theorem itemLoop_lowerLoop {final n : Naming} (hfit : n.Fit) (item : Name) (node : Node)
    (collection : Expr) (body : List Stmt)
    (h : (lowerLoop item node collection n).2.Extends final) :
    ItemLoop final item collection body ((lowerLoop item node collection n).1 body) := by
  revert h
  unfold lowerLoop
  split
  · split
    · intro _
      exact .countUp
    · intro h
      exact .countTo (fresh_unused hfit "limit" h)
  · intro _
    exact .forOf
  · intro _
    exact .forOf

theorem not_isList_of_isDeclaration {n : Node} (h : n.isDeclaration = true) : n.isList = false := by
  cases n with
  | declare _ _ => rfl
  | _ => cases h

theorem not_isList_of_isAssignment {n : Node} (h : n.isAssignment = true) : n.isList = false := by
  cases n with
  | assign _ _ => rfl
  | _ => cases h

mutual

/-- Emission gives a program of a statement. -/
theorem lowered_lowerStmt {final : Naming} (inBranch : Bool) : ∀ (s : Node) (n : Naming),
    n.Fit → s.formed = true → s.isList = false → (lowerStmt inBranch s n).2.Extends final →
      Lowered final inBranch s (lowerStmt inBranch s n).1
  | .print argument, n, _, _, _, h => .print (spells_lowerExpr argument n h)
  | .declare v initializer, n, _, _, _, h =>
    .declare (spells_lowerExpr initializer n ((grows_name _ (.var v)).extends_.trans h))
      (h.find? (find?_name _ (.var v)))
  | .assign target source, n, _, _, _, h =>
    .assign (((grows_lowerExpr source _).extends_.trans h).find? (find?_name n (.var target)))
      (spells_lowerExpr source _ h)
  | .shortIf test consequence, n, hfit, hform, _, h => by
    simp only [Node.formed, Bool.and_eq_true] at hform
    have hbody := grows_lowerStmts true consequence (lowerExpr test n).2
    apply Lowered.shortIf
    · exact spells_lowerExpr test n (hbody.extends_.trans h)
    · exact lowered_lowerStmts true consequence _ ((grows_lowerExpr test n).fit hfit) hform.2 h
  | .ifElse test consequence alternate, n, hfit, hform, _, h => by
    simp only [Node.formed, Bool.and_eq_true] at hform
    have htest := grows_lowerExpr test n
    have hbody := grows_lowerStmts true consequence (lowerExpr test n).2
    have hrest := (grows_lowerElse alternate _).extends_.trans h
    apply Lowered.ifElse
    · exact spells_lowerExpr test n (hbody.extends_.trans hrest)
    · exact lowered_lowerStmts true consequence _ (htest.fit hfit) hform.2.1 hrest
    · exact lowered_lowerElse alternate _ ((htest.trans hbody).fit hfit) hform.2.2.1 hform.2.2.2 h
  | .whileLoop test body, n, hfit, hform, _, h => by
    simp only [Node.formed, Bool.and_eq_true] at hform
    have hbody := grows_lowerStmts false body (lowerExpr test n).2
    apply Lowered.whileLoop
    · exact spells_lowerExpr test n (hbody.extends_.trans h)
    · exact lowered_lowerStmts false body _ ((grows_lowerExpr test n).fit hfit) hform.2 h
  | .forLoop declaration test increment body true, n, hfit, hform, _, h => by
    simp only [Node.formed, Bool.and_eq_true] at hform
    have hheader := grows_lowerStmt inBranch declaration n
    apply Lowered.unrolled hform.1.1
    · exact lowered_lowerStmt inBranch declaration n hfit hform.1.2
        (not_isList_of_isDeclaration hform.1.1)
        ((grows_lowerStmts inBranch body _).extends_.trans h)
    · exact lowered_lowerStmts inBranch body _ (hheader.fit hfit) hform.2.2.2 h
  | .forLoop declaration test increment body false, n, hfit, hform, _, h => by
    simp only [Node.formed, Bool.and_eq_true] at hform
    have hheader := grows_lowerStmt inBranch declaration n
    have htest := hheader.trans (grows_lowerExpr test _)
    have hbody := htest.trans (grows_lowerStmts false body _)
    have hlast := (grows_lowerStmt inBranch increment _).extends_.trans h
    have hstmts := (grows_lowerStmts false body _).extends_.trans hlast
    apply Lowered.rolled hform.1.1
    · exact lowered_lowerStmt inBranch declaration n hfit hform.1.2
        (not_isList_of_isDeclaration hform.1.1) ((grows_lowerExpr test _).extends_.trans hstmts)
    · exact spells_lowerExpr test _ hstmts
    · exact lowered_lowerStmts false body _ (htest.fit hfit) hform.2.2.2 hlast
    · exact hform.2.2.1.1
    · exact lowered_lowerStmt inBranch increment _ (hbody.fit hfit) hform.2.2.1.2
        (not_isList_of_isAssignment hform.2.2.1.1) h
  | .forEach iterator collection body, n, hfit, hform, _, h => by
    simp only [Node.formed, Bool.and_eq_true] at hform
    have hitem := grows_name n (.var iterator)
    have hcollection := hitem.trans (grows_lowerExpr collection _)
    have hloop := hcollection.trans (grows_lowerLoop (n.name (.var iterator)).1 collection
      (lowerExpr collection (n.name (.var iterator)).2).1 _)
    have hstmts := (grows_lowerStmts false body _).extends_.trans h
    have hheader := (grows_lowerLoop _ collection _ _).extends_.trans hstmts
    apply Lowered.forEach
    · exact ((grows_lowerExpr collection _).extends_.trans hheader).find?
        (find?_name n (.var iterator))
    · exact spells_lowerExpr collection _ hheader
    · exact lowered_lowerStmts false body _ (hloop.fit hfit) hform.2 h
    · exact itemLoop_lowerLoop (hcollection.fit hfit) _ collection _ _ hstmts
  | .define f body, n, hfit, hform, _, h => by
    have hname := grows_name n (.function f)
    have hparams := hname.trans (grows_nameAll _ f.params)
    have hstmts := (grows_lowerStmts false body _).extends_.trans h
    apply Lowered.define
    · exact ((grows_nameAll _ f.params).extends_.trans hstmts).find? (find?_name n (.function f))
    · exact find?_nameAll _ f.params hstmts
    · exact lowered_lowerStmts false body _ (hparams.fit hfit) hform h
  | .call callee args _, n, _, _, _, h =>
    .call (((grows_lowerExprs args _).extends_.trans h).find? (find?_name n (.function callee)))
      (spells_lowerExprs args _ h)
  | .exit, _, _, _, _, _ => .exit
  | .ret expression, n, _, _, _, h => .ret (spells_lowerExpr expression n h)
  | .shortRet, _, _, _, _, _ => .shortRet

/-- Emission gives the rest of a branch for an alternative. -/
theorem lowered_lowerElse {final : Naming} : ∀ (s : Node) (n : Naming), n.Fit →
    s.isAlternative = true → s.formed = true → (lowerElse s n).2.Extends final →
      LoweredElse final s (lowerElse s n).1
  | .shortIf test consequence, n, hfit, _, hform, h => by
    simp only [Node.formed, Bool.and_eq_true] at hform
    have hbody := grows_lowerStmts true consequence (lowerExpr test n).2
    apply LoweredElse.shortIf
    · exact spells_lowerExpr test n (hbody.extends_.trans h)
    · exact lowered_lowerStmts true consequence _ ((grows_lowerExpr test n).fit hfit) hform.2 h
  | .ifElse test consequence alternate, n, hfit, _, hform, h => by
    simp only [Node.formed, Bool.and_eq_true] at hform
    have htest := grows_lowerExpr test n
    have hbody := grows_lowerStmts true consequence (lowerExpr test n).2
    have hrest := (grows_lowerElse alternate _).extends_.trans h
    apply LoweredElse.ifElse
    · exact spells_lowerExpr test n (hbody.extends_.trans hrest)
    · exact lowered_lowerStmts true consequence _ (htest.fit hfit) hform.2.1 hrest
    · exact lowered_lowerElse alternate _ ((htest.trans hbody).fit hfit) hform.2.2.1 hform.2.2.2 h
  | .list items, n, hfit, _, hform, h => .list (lowered_lowerStmts true items n hfit hform h)

/-- Emission gives a program of some statements. -/
theorem lowered_lowerStmts {final : Naming} (inBranch : Bool) : ∀ (ss : List Node) (n : Naming),
    n.Fit → Node.allFormed ss = true → (lowerStmts inBranch ss n).2.Extends final →
      LoweredAll final inBranch ss (lowerStmts inBranch ss n).1
  | [], _, _, _, _ => .nil
  | s :: rest, n, hfit, hform, h => by
    simp only [Node.allFormed, Bool.and_eq_true, Bool.not_eq_true'] at hform
    apply LoweredAll.cons
    · exact lowered_lowerStmt inBranch s n hfit hform.1.2 hform.1.1
        ((grows_lowerStmts inBranch rest _).extends_.trans h)
    · exact lowered_lowerStmts inBranch rest _ ((grows_lowerStmt inBranch s n).fit hfit) hform.2 h

end

/-! ## Obstacles -/

/-- The only obstacle, if there is one, is a number with too many digits. -/
def OnlyDigits (fault? : Option EmitFault) : Prop := ∀ fault ∈ fault?, fault = .digitLimit

theorem OnlyDigits.none : OnlyDigits none := by
  intro fault hfault
  cases hfault

theorem OnlyDigits.or {a b : Option EmitFault} (ha : OnlyDigits a) (hb : OnlyDigits b) :
    OnlyDigits (a.or b) := by
  cases a with
  | none => exact hb
  | some fault => exact ha

mutual

theorem onlyDigits_exprFault : ∀ {e : Node}, e.isExpr = true → OnlyDigits (exprFault? e)
  | .bool _, _ | .string _ _, _ | .var _, _ => .none
  | .number value, _ => by
    unfold exprFault?
    split
    · exact .none
    · intro fault hfault
      exact (Option.some.inj hfault).symm
  | .unary _ operand _, h => onlyDigits_exprFault (e := operand) h
  | .binary _ left right _, h => by
    simp only [Node.isExpr, Bool.and_eq_true] at h
    exact (onlyDigits_exprFault h.1).or (onlyDigits_exprFault h.2)
  | .conditional consequent test alternate _, h => by
    simp only [Node.isExpr, Bool.and_eq_true] at h
    exact (onlyDigits_exprFault h.2.1).or
      ((onlyDigits_exprFault h.1).or (onlyDigits_exprFault h.2.2))
  | .call _ args _, h => onlyDigits_exprsFault (s := args) h
  | .array elements _, h => onlyDigits_exprsFault (s := elements) h
  | .index array index _, h => by
    simp only [Node.isExpr, Bool.and_eq_true] at h
    exact (onlyDigits_exprFault h.1).or (onlyDigits_exprFault h.2)

theorem onlyDigits_exprsFault : ∀ {s : List Node}, Node.allExpr s = true →
    OnlyDigits (exprsFault? s)
  | [], _ => .none
  | _ :: _, h => by
    simp only [Node.allExpr, Bool.and_eq_true] at h
    exact (onlyDigits_exprFault h.1).or (onlyDigits_exprsFault h.2)

end

mutual

/-- Emission makes sense of every well formed statement. -/
theorem onlyDigits_stmtFault : ∀ {n : Node}, n.formed = true → n.isList = false →
    OnlyDigits (stmtFault? n)
  | .print _, h, _ | .declare _ _, h, _ | .assign _ _, h, _ | .ret _, h, _ =>
    onlyDigits_exprFault h
  | .shortIf _ _, h, _ => by
    simp only [Node.formed, Bool.and_eq_true] at h
    exact (onlyDigits_exprFault h.1).or (onlyDigits_stmtsFault h.2)
  | .ifElse _ _ _, h, _ => by
    simp only [Node.formed, Bool.and_eq_true] at h
    exact (onlyDigits_exprFault h.1).or
      ((onlyDigits_stmtsFault h.2.1).or (onlyDigits_elseFault h.2.2.1 h.2.2.2))
  | .whileLoop _ _, h, _ => by
    simp only [Node.formed, Bool.and_eq_true] at h
    exact (onlyDigits_exprFault h.1).or (onlyDigits_stmtsFault h.2)
  | .forLoop _ _ _ _ unrolled, h, _ => by
    simp only [Node.formed, Bool.and_eq_true] at h
    have hheader := onlyDigits_stmtFault h.1.2 (not_isList_of_isDeclaration h.1.1)
    have hlast := onlyDigits_stmtFault h.2.2.1.2 (not_isList_of_isAssignment h.2.2.1.1)
    have hbody := onlyDigits_stmtsFault h.2.2.2
    cases unrolled with
    | true => exact hheader.or hbody
    | false => exact hheader.or ((onlyDigits_exprFault h.2.1).or (hbody.or hlast))
  | .forEach _ _ _, h, _ => by
    simp only [Node.formed, Bool.and_eq_true] at h
    exact (onlyDigits_exprFault h.1).or (onlyDigits_stmtsFault h.2)
  | .define _ body, h, _ => onlyDigits_stmtsFault (s := body) h
  | .call _ args _, h, _ => onlyDigits_exprsFault (s := args) h
  | .exit, _, _ | .shortRet, _, _ => .none

theorem onlyDigits_elseFault : ∀ {n : Node}, n.isAlternative = true → n.formed = true →
    OnlyDigits (elseFault? n)
  | .shortIf _ _, _, h => by
    simp only [Node.formed, Bool.and_eq_true] at h
    exact (onlyDigits_exprFault h.1).or (onlyDigits_stmtsFault h.2)
  | .ifElse _ _ _, _, h => by
    simp only [Node.formed, Bool.and_eq_true] at h
    exact (onlyDigits_exprFault h.1).or
      ((onlyDigits_stmtsFault h.2.1).or (onlyDigits_elseFault h.2.2.1 h.2.2.2))
  | .list items, _, h => onlyDigits_stmtsFault (s := items) h

theorem onlyDigits_stmtsFault : ∀ {s : List Node}, Node.allFormed s = true →
    OnlyDigits (stmtsFault? s)
  | [], _ => .none
  | _ :: _, h => by
    simp only [Node.allFormed, Bool.and_eq_true, Bool.not_eq_true'] at h
    exact (onlyDigits_stmtFault h.1.2 h.1.1).or (onlyDigits_stmtsFault h.2)

end

/-- Well formed statements have a program, unless a number is too long to be
written. -/
theorem emit_lowered {ns : List Node} (hform : Node.allFormed ns = true) :
    emit ns = .error .digitLimit ∨
      ∃ e, emit ns = .ok e ∧ e.naming.Fit ∧ LoweredAll e.naming false ns e.program := by
  have honly := onlyDigits_stmtsFault hform
  unfold emit
  cases hfault : stmtsFault? ns with
  | some fault =>
    rw [hfault] at honly
    rw [honly fault rfl]
    exact .inl rfl
  | none =>
    have hgrows := grows_lowerStmts false ns .empty
    exact .inr ⟨_, rfl, hgrows.fit fit_empty, lowered_lowerStmts false ns .empty fit_empty hform
      (.refl _)⟩

end Squishc.Js
