import Squishc.Js.Lower
import Squishc.Proofs.Renaming

/-!
# The JavaScript of a renamed program

Emission looks at an entity only to see whether it has met it before, and takes its
name as it is.  So the JavaScript of a renamed program is that of the program itself
with other names in it, and with the same numbers.  The limits of loops that count
are no entities and keep their names.

Main results:

- Theorem `Naming.name_rename`: an entity and its counterpart are given one number.
- Theorem `lowerStmts_rename`: a renamed tree has the renamed JavaScript.
- Theorem `emit_rename`: whole programs are emitted alike, or refused alike.
-/

namespace Squishc

namespace Js

/-! ## Programs with other names -/

/-- A name with another base and the same number. -/
def Name.rename (r : String → String) (n : Name) : Name := ⟨r n.base, n.index⟩

mutual

/-- An expression with other names. -/
def Expr.rename (r : String → String) : Expr → Expr
  | .bool value => .bool value
  | .number value => .number value
  | .string value => .string value
  | .name n => .name (n.rename r)
  | .unary op operand => .unary op (operand.rename r)
  | .binary op left right => .binary op (left.rename r) (right.rename r)
  | .conditional test consequent alternate =>
    .conditional (test.rename r) (consequent.rename r) (alternate.rename r)
  | .call callee args => .call (callee.rename r) (renameExprs r args)
  | .array elements => .array (renameExprs r elements)
  | .index array index => .index (array.rename r) (index.rename r)
  | .blank => .blank

/-- Some expressions with other names. -/
def renameExprs (r : String → String) : List Expr → List Expr
  | [] => []
  | e :: rest => e.rename r :: renameExprs r rest

end

mutual

/-- A statement with other names.  Limits keep theirs. -/
def Stmt.rename (r : String → String) : Stmt → Stmt
  | .log argument => .log (argument.rename r)
  | .declare binder name initializer => .declare binder (name.rename r) (initializer.rename r)
  | .assign target source => .assign (target.rename r) (source.rename r)
  | .branch test body rest => .branch (test.rename r) (renameStmts r body) (rest.rename r)
  | .whileLoop test body => .whileLoop (test.rename r) (renameStmts r body)
  | .countUp counter bound body =>
    .countUp (counter.rename r) (bound.rename r) (renameStmts r body)
  | .countTo counter limit bound body =>
    .countTo (counter.rename r) limit (bound.rename r) (renameStmts r body)
  | .forOf item collection helped body =>
    .forOf (item.rename r) (collection.rename r) helped (renameStmts r body)
  | .function bound name params body =>
    .function bound (name.rename r) (params.map (Name.rename r)) (renameStmts r body)
  | .call callee args => .call (callee.rename r) (renameExprs r args)
  | .exit => .exit
  | .ret expression => .ret (expression.rename r)
  | .shortRet => .shortRet

/-- What follows the body of a branch, with other names. -/
def Else.rename (r : String → String) : Else → Else
  | .absent => .absent
  | .body body => .body (renameStmts r body)
  | .branch test body rest => .branch (test.rename r) (renameStmts r body) (rest.rename r)

/-- Some statements with other names. -/
def renameStmts (r : String → String) : List Stmt → List Stmt
  | [] => []
  | s :: rest => s.rename r :: renameStmts r rest

end

theorem renameStmts_append (r : String → String) (ss ts : List Stmt) :
    renameStmts r (ss ++ ts) = renameStmts r ss ++ renameStmts r ts := by
  induction ss with
  | nil => rfl
  | cons s rest ih => rw [List.cons_append, renameStmts, ih, renameStmts, List.cons_append]

/-- The names given so far, with other bases. -/
def Naming.rename (r : String → String) (n : Naming) : Naming :=
  ⟨n.names.map (fun known => (known.1.rename r, known.2.rename r)), n.count⟩

section

variable {r : String → String}

/-! ## Naming -/

theorem Naming.find?_rename (hr : Function.Injective r) (n : Naming) (e : Entity) :
    (n.rename r).find? (e.rename r) = (n.find? e).map (Name.rename r) := by
  have hsame : (fun known : Entity × Name => decide (known.1 = e.rename r)) ∘
      (fun known : Entity × Name => (known.1.rename r, known.2.rename r)) =
        fun known => decide (known.1 = e) := by
    funext known
    simp [(Entity.rename_injective hr).eq_iff]
  rw [find?, rename, List.find?_map, hsame, Option.map_map, find?, Option.map_map]
  rfl

theorem Naming.name_rename (hr : Function.Injective r) (n : Naming) (e : Entity) :
    (n.rename r).name (e.rename r) = Prod.map (Name.rename r) (Naming.rename r) (n.name e) := by
  have hbase : (e.rename r).name = r e.name := by cases e <;> rfl
  rw [name, find?_rename hr, name]
  cases n.find? e with
  | some known => rfl
  | none => simp [fresh, rename, hbase, Name.rename]

theorem Naming.nameAll_rename (hr : Function.Injective r) (vs : List Variable) (n : Naming) :
    (n.rename r).nameAll (vs.map (Variable.rename r)) =
      Prod.map (List.map (Name.rename r)) (Naming.rename r) (n.nameAll vs) := by
  induction vs generalizing n with
  | nil => rfl
  | cons v rest ih =>
    have hfirst : (n.rename r).name (.var (v.rename r)) =
        Prod.map (Name.rename r) (Naming.rename r) (n.name (.var v)) :=
      name_rename hr n (.var v)
    rw [List.map_cons, nameAll, hfirst, nameAll]
    rcases n.name (.var v) with ⟨first, n₁⟩
    simp only [Prod.map, ih n₁]
    rfl

/-! ## Emission -/

theorem Naming.var_rename (hr : Function.Injective r) (n : Naming) (v : Variable) :
    (n.rename r).name (.var (v.rename r)) =
      Prod.map (Name.rename r) (Naming.rename r) (n.name (.var v)) :=
  name_rename hr n (.var v)

theorem Naming.function_rename (hr : Function.Injective r) (n : Naming) (f : Function) :
    (n.rename r).name (.function (f.rename r)) =
      Prod.map (Name.rename r) (Naming.rename r) (n.name (.function f)) :=
  name_rename hr n (.function f)

mutual

/-- The JavaScript of a renamed expression. -/
theorem lowerExpr_rename (hr : Function.Injective r) : ∀ (e : Node) (n : Naming),
    lowerExpr (e.rename r) (n.rename r) =
      Prod.map (Expr.rename r) (Naming.rename r) (lowerExpr e n)
  | .var v, n => by
    change lowerExpr (.var (v.rename r)) (n.rename r) = _
    rw [lowerExpr, Naming.var_rename hr, lowerExpr]
    rcases n.name (.var v) with ⟨name, n₁⟩
    rfl
  | .unary op operand type, n => by
    change lowerExpr (.unary op (operand.rename r) type) (n.rename r) = _
    rw [lowerExpr, lowerExpr_rename hr operand, lowerExpr]
    rcases lowerExpr operand n with ⟨e, n₁⟩
    rfl
  | .binary op left right type, n => by
    change lowerExpr (.binary op (left.rename r) (right.rename r) type) (n.rename r) = _
    rw [lowerExpr, lowerExpr_rename hr left, lowerExpr]
    rcases lowerExpr left n with ⟨a, n₁⟩
    simp only [Prod.map, lowerExpr_rename hr right]
    rfl
  | .conditional consequent test alternate type, n => by
    change lowerExpr (.conditional (consequent.rename r) (test.rename r) (alternate.rename r) type)
      (n.rename r) = _
    rw [lowerExpr, lowerExpr_rename hr test, lowerExpr]
    rcases lowerExpr test n with ⟨t, n₁⟩
    simp only [Prod.map, lowerExpr_rename hr consequent, lowerExpr_rename hr alternate]
    rfl
  | .call callee args type, n => by
    rw [Node.rename_call, lowerExpr, Naming.function_rename hr, lowerExpr]
    rcases n.name (.function callee) with ⟨name, n₁⟩
    simp only [Prod.map, lowerExprs_rename hr args]
    rfl
  | .array elements type, n => by
    rw [Node.rename_array, lowerExpr, lowerExprs_rename hr elements, lowerExpr]
    rcases lowerExprs elements n with ⟨es, n₁⟩
    rfl
  | .index a i type, n => by
    change lowerExpr (.index (a.rename r) (i.rename r) type) (n.rename r) = _
    rw [lowerExpr, lowerExpr_rename hr a, lowerExpr]
    rcases lowerExpr a n with ⟨array, n₁⟩
    simp only [Prod.map, lowerExpr_rename hr i]
    rfl
  | .null, _ | .foreign, _ | .bool _, _ | .number _, _ | .function _, _ | .list _, _
  | .program _, _ | .print _, _ | .declare _ _, _ | .assign _ _, _ | .shortIf _ _, _
  | .ifElse _ _ _, _ | .whileLoop _ _, _ | .forLoop _ _ _ _ _, _ | .forEach _ _ _, _
  | .define _ _, _ | .exit, _ | .ret _, _ | .shortRet, _ | .string _ _, _ => rfl

theorem lowerExprs_rename (hr : Function.Injective r) : ∀ (es : List Node) (n : Naming),
    lowerExprs (es.map (Node.rename r)) (n.rename r) =
      Prod.map (renameExprs r) (Naming.rename r) (lowerExprs es n)
  | [], n => rfl
  | e :: rest, n => by
    rw [List.map_cons, lowerExprs, lowerExpr_rename hr e n, lowerExprs]
    rcases lowerExpr e n with ⟨first, n₁⟩
    simp only [Prod.map, lowerExprs_rename hr rest n₁]
    rfl

end

theorem isIntLiteral_rename (n : Node) : isIntLiteral (n.rename r) = isIntLiteral n := by
  cases n <;> rfl

/-- The loop over a renamed collection is the renamed loop, whatever its body. -/
theorem lowerLoop_rename (item : Name) (node : Node) (collection : Expr) (n : Naming) :
    (∀ body, (lowerLoop (item.rename r) (node.rename r) (collection.rename r) (n.rename r)).1
        (renameStmts r body) = ((lowerLoop item node collection n).1 body).rename r) ∧
      (lowerLoop (item.rename r) (node.rename r) (collection.rename r) (n.rename r)).2 =
        (lowerLoop item node collection n).2.rename r := by
  unfold lowerLoop
  rw [Node.type_rename, isIntLiteral_rename]
  cases node.type with
  | int => split_ifs <;> exact ⟨fun _ => rfl, rfl⟩
  | _ => exact ⟨fun _ => rfl, rfl⟩

mutual

/-- The JavaScript of a renamed statement. -/
theorem lowerStmt_rename (hr : Function.Injective r) (inBranch : Bool) :
    ∀ (s : Node) (n : Naming), lowerStmt inBranch (s.rename r) (n.rename r) =
      Prod.map (renameStmts r) (Naming.rename r) (lowerStmt inBranch s n)
  | .print argument, n => by
    change lowerStmt inBranch (.print (argument.rename r)) (n.rename r) = _
    rw [lowerStmt, lowerExpr_rename hr, lowerStmt]
    rcases lowerExpr argument n with ⟨e, n₁⟩
    rfl
  | .declare v initializer, n => by
    change lowerStmt inBranch (.declare (v.rename r) (initializer.rename r)) (n.rename r) = _
    rw [lowerStmt, lowerExpr_rename hr, lowerStmt]
    rcases lowerExpr initializer n with ⟨e, n₁⟩
    simp only [Prod.map, Naming.var_rename hr]
    rfl
  | .assign target source, n => by
    change lowerStmt inBranch (.assign (target.rename r) (source.rename r)) (n.rename r) = _
    rw [lowerStmt, Naming.var_rename hr, lowerStmt]
    rcases n.name (.var target) with ⟨name, n₁⟩
    simp only [Prod.map, lowerExpr_rename hr]
    rfl
  | .shortIf test consequence, n => by
    rw [Node.rename_shortIf, lowerStmt, lowerExpr_rename hr, lowerStmt]
    rcases lowerExpr test n with ⟨t, n₁⟩
    simp only [Prod.map, lowerStmts_rename hr true consequence]
    rfl
  | .ifElse test consequence alternate, n => by
    rw [Node.rename_ifElse, lowerStmt, lowerExpr_rename hr, lowerStmt]
    rcases lowerExpr test n with ⟨t, n₁⟩
    simp only [Prod.map, lowerStmts_rename hr true consequence, lowerElse_rename hr alternate]
    rfl
  | .whileLoop test body, n => by
    rw [Node.rename_whileLoop, lowerStmt, lowerExpr_rename hr, lowerStmt]
    rcases lowerExpr test n with ⟨t, n₁⟩
    simp only [Prod.map, lowerStmts_rename hr false body]
    rfl
  | .forLoop declaration test increment body unrolled, n => by
    rw [Node.rename_forLoop, lowerStmt, lowerStmt_rename hr inBranch declaration, lowerStmt]
    rcases lowerStmt inBranch declaration n with ⟨header, n₁⟩
    cases unrolled with
    | true =>
      simp only [Prod.map, lowerStmts_rename hr inBranch body, if_true, renameStmts_append]
    | false =>
      simp only [Prod.map, lowerExpr_rename hr, lowerStmts_rename hr false body,
        lowerStmt_rename hr inBranch increment, Bool.false_eq_true, if_false, renameStmts_append,
        renameStmts, Stmt.rename]
  | .forEach iterator collection body, n => by
    rw [Node.rename_forEach, lowerStmt, Naming.var_rename hr, lowerStmt]
    rcases n.name (.var iterator) with ⟨item, n₁⟩
    simp only [Prod.map, lowerExpr_rename hr]
    rcases lowerExpr collection n₁ with ⟨e, n₂⟩
    obtain ⟨hloop, hnaming⟩ := lowerLoop_rename (r := r) item collection e n₂
    generalize lowerLoop (item.rename r) (collection.rename r) (e.rename r) (n₂.rename r) =
      renamed at hloop hnaming ⊢
    rcases renamed with ⟨loop, n₃⟩
    simp only at hloop hnaming
    simp only [hnaming, lowerStmts_rename hr false body, Prod.map, hloop, renameStmts]
  | .define f body, n => by
    rw [Node.rename_define, lowerStmt, Naming.function_rename hr, lowerStmt]
    rcases n.name (.function f) with ⟨name, n₁⟩
    have hparams : (n₁.rename r).nameAll (f.rename r).params =
        Prod.map (List.map (Name.rename r)) (Naming.rename r) (n₁.nameAll f.params) :=
      Naming.nameAll_rename hr f.params n₁
    simp only [Prod.map, hparams, lowerStmts_rename hr false body]
    rfl
  | .call callee args type, n => by
    rw [Node.rename_call, lowerStmt, Naming.function_rename hr, lowerStmt]
    rcases n.name (.function callee) with ⟨name, n₁⟩
    simp only [Prod.map, lowerExprs_rename hr]
    rfl
  | .ret expression, n => by
    change lowerStmt inBranch (.ret (expression.rename r)) (n.rename r) = _
    rw [lowerStmt, lowerExpr_rename hr, lowerStmt]
    rcases lowerExpr expression n with ⟨e, n₁⟩
    rfl
  | .null, _ | .foreign, _ | .bool _, _ | .number _, _ | .var _, _ | .function _, _ | .list _, _
  | .program _, _ | .exit, _ | .shortRet, _ | .unary _ _ _, _ | .binary _ _ _ _, _
  | .conditional _ _ _ _, _ | .string _ _, _ | .array _ _, _ | .index _ _ _, _ => rfl

theorem lowerElse_rename (hr : Function.Injective r) : ∀ (s : Node) (n : Naming),
    lowerElse (s.rename r) (n.rename r) =
      Prod.map (Else.rename r) (Naming.rename r) (lowerElse s n)
  | .shortIf test consequence, n => by
    rw [Node.rename_shortIf, lowerElse, lowerExpr_rename hr, lowerElse]
    rcases lowerExpr test n with ⟨t, n₁⟩
    simp only [Prod.map, lowerStmts_rename hr true consequence]
    rfl
  | .ifElse test consequence alternate, n => by
    rw [Node.rename_ifElse, lowerElse, lowerExpr_rename hr, lowerElse]
    rcases lowerExpr test n with ⟨t, n₁⟩
    simp only [Prod.map, lowerStmts_rename hr true consequence, lowerElse_rename hr alternate]
    rfl
  | .list items, n => by
    rw [Node.rename_list, lowerElse, lowerStmts_rename hr true items, lowerElse]
    rfl
  | .null, _ | .foreign, _ | .bool _, _ | .number _, _ | .var _, _ | .function _, _
  | .program _, _ | .print _, _ | .declare _ _, _ | .assign _ _, _ | .whileLoop _ _, _
  | .forLoop _ _ _ _ _, _ | .forEach _ _ _, _ | .define _ _, _ | .exit, _ | .ret _, _
  | .shortRet, _ | .call _ _ _, _ | .unary _ _ _, _ | .binary _ _ _ _, _
  | .conditional _ _ _ _, _ | .string _ _, _ | .array _ _, _ | .index _ _ _, _ => rfl

theorem lowerStmts_rename (hr : Function.Injective r) (inBranch : Bool) :
    ∀ (ss : List Node) (n : Naming), lowerStmts inBranch (ss.map (Node.rename r)) (n.rename r) =
      Prod.map (renameStmts r) (Naming.rename r) (lowerStmts inBranch ss n)
  | [], n => rfl
  | s :: rest, n => by
    rw [List.map_cons, lowerStmts, lowerStmt_rename hr inBranch s n, lowerStmts]
    rcases lowerStmt inBranch s n with ⟨first, n₁⟩
    simp only [Prod.map, lowerStmts_rename hr inBranch rest n₁, renameStmts_append]

end

/-! ## Obstacles -/

mutual

theorem exprFault?_rename : ∀ e : Node, exprFault? (e.rename r) = exprFault? e
  | .unary op operand type => exprFault?_rename operand
  | .binary op left right type => by
    change (exprFault? (left.rename r)).or (exprFault? (right.rename r)) = _
    rw [exprFault?_rename left, exprFault?_rename right, exprFault?]
  | .conditional consequent test alternate type => by
    change (exprFault? (test.rename r)).or
      ((exprFault? (consequent.rename r)).or (exprFault? (alternate.rename r))) = _
    rw [exprFault?_rename test, exprFault?_rename consequent, exprFault?_rename alternate,
      exprFault?]
  | .call callee args type => by
    rw [Node.rename_call, exprFault?, exprsFault?_rename args, exprFault?]
  | .array elements type => by
    rw [Node.rename_array, exprFault?, exprsFault?_rename elements, exprFault?]
  | .index a i type => by
    change (exprFault? (a.rename r)).or (exprFault? (i.rename r)) = _
    rw [exprFault?_rename a, exprFault?_rename i, exprFault?]
  | .null | .foreign | .bool _ | .number _ | .var _ | .function _ | .list _ | .program _
  | .print _ | .declare _ _ | .assign _ _ | .shortIf _ _ | .ifElse _ _ _ | .whileLoop _ _
  | .forLoop _ _ _ _ _ | .forEach _ _ _ | .define _ _ | .exit | .ret _ | .shortRet
  | .string _ _ => rfl

theorem exprsFault?_rename : ∀ es : List Node,
    exprsFault? (es.map (Node.rename r)) = exprsFault? es
  | [] => rfl
  | e :: rest => by
    rw [List.map_cons, exprsFault?, exprFault?_rename e, exprsFault?_rename rest, exprsFault?]

end

mutual

theorem stmtFault?_rename : ∀ s : Node, stmtFault? (s.rename r) = stmtFault? s
  | .print argument => exprFault?_rename argument
  | .declare v initializer => exprFault?_rename initializer
  | .assign target source => exprFault?_rename source
  | .shortIf test consequence => by
    rw [Node.rename_shortIf, stmtFault?, exprFault?_rename, stmtsFault?_rename consequence,
      stmtFault?]
  | .ifElse test consequence alternate => by
    rw [Node.rename_ifElse, stmtFault?, exprFault?_rename, stmtsFault?_rename consequence,
      elseFault?_rename alternate, stmtFault?]
  | .whileLoop test body => by
    rw [Node.rename_whileLoop, stmtFault?, exprFault?_rename, stmtsFault?_rename body, stmtFault?]
  | .forLoop declaration test increment body unrolled => by
    rw [Node.rename_forLoop, stmtFault?, stmtFault?_rename declaration, exprFault?_rename,
      stmtsFault?_rename body, stmtFault?_rename increment, stmtFault?]
  | .forEach iterator collection body => by
    rw [Node.rename_forEach, stmtFault?, exprFault?_rename, stmtsFault?_rename body, stmtFault?]
  | .define f body => by rw [Node.rename_define, stmtFault?, stmtsFault?_rename body, stmtFault?]
  | .call callee args type => by
    rw [Node.rename_call, stmtFault?, exprsFault?_rename, stmtFault?]
  | .ret expression => exprFault?_rename expression
  | .null | .foreign | .bool _ | .number _ | .var _ | .function _ | .list _ | .program _
  | .exit | .shortRet | .unary _ _ _ | .binary _ _ _ _ | .conditional _ _ _ _ | .string _ _
  | .array _ _ | .index _ _ _ => rfl

theorem elseFault?_rename : ∀ s : Node, elseFault? (s.rename r) = elseFault? s
  | .shortIf test consequence => by
    rw [Node.rename_shortIf, elseFault?, exprFault?_rename, stmtsFault?_rename consequence,
      elseFault?]
  | .ifElse test consequence alternate => by
    rw [Node.rename_ifElse, elseFault?, exprFault?_rename, stmtsFault?_rename consequence,
      elseFault?_rename alternate, elseFault?]
  | .list items => by rw [Node.rename_list, elseFault?, stmtsFault?_rename items, elseFault?]
  | .null | .foreign | .bool _ | .number _ | .var _ | .function _ | .program _ | .print _
  | .declare _ _ | .assign _ _ | .whileLoop _ _ | .forLoop _ _ _ _ _ | .forEach _ _ _
  | .define _ _ | .exit | .ret _ | .shortRet | .call _ _ _ | .unary _ _ _ | .binary _ _ _ _
  | .conditional _ _ _ _ | .string _ _ | .array _ _ | .index _ _ _ => rfl

theorem stmtsFault?_rename : ∀ ss : List Node,
    stmtsFault? (ss.map (Node.rename r)) = stmtsFault? ss
  | [] => rfl
  | s :: rest => by
    rw [List.map_cons, stmtsFault?, stmtFault?_rename s, stmtsFault?_rename rest, stmtsFault?]

end

/-- An emitted program with other names. -/
def Emitted.rename (r : String → String) (e : Emitted) : Emitted :=
  ⟨renameStmts r e.program, e.naming.rename r⟩

/-- A renamed tree has the renamed program, or none for the same reason. -/
theorem emit_rename (hr : Function.Injective r) (statements : List Node) :
    emit (statements.map (Node.rename r)) = (emit statements).map (Emitted.rename r) := by
  have hlower := lowerStmts_rename hr false statements .empty
  unfold emit
  rw [stmtsFault?_rename]
  cases stmtsFault? statements with
  | some f => rfl
  | none =>
    change Except.ok (Emitted.mk
      (lowerStmts false (statements.map (Node.rename r)) (Naming.empty.rename r)).1
      (lowerStmts false (statements.map (Node.rename r)) (Naming.empty.rename r)).2) = _
    rw [hlower]
    rfl

end

end Js

end Squishc
