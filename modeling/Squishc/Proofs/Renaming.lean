import Mathlib.Logic.Function.Basic
import Squishc.Proofs.Relabeling
import Squishc.Resolve

/-!
# Renaming a program

The names of a program can be changed throughout, so that different names stay
different.  Resolution looks at a name only to see whether it is the same as
another one, and numbers entities in the order of their declarations.  So a
renamed program is resolved like the one it came from: to the same tree up to the
names of its entities, or to the same fault at the same place.

Main results:

- Theorem `expr_mirrors` and theorem `stmts_mirrors`: the parts of a renamed program
  are resolved like those of the program itself.
- Theorem `resolve_rename`: so are whole programs.
-/

namespace Squishc

/-! ## Entities and trees -/

/-- A variable under another name. -/
def Variable.rename (r : String → String) (v : Variable) : Variable := ⟨v.id, r v.name, v.type⟩

/-- A function under another name, with renamed parameters. -/
def Function.rename (r : String → String) (f : Function) : Function :=
  ⟨f.id, r f.name, f.params.map (Variable.rename r)⟩

/-- Every entity under another name. -/
def Relabeling.byName (r : String → String) : Relabeling := ⟨Variable.rename r, Function.rename r⟩

/-- An entity under another name. -/
def Entity.rename (r : String → String) (e : Entity) : Entity := (Relabeling.byName r).entity e

/-- A tree whose entities have other names. -/
def Node.rename (r : String → String) (n : Node) : Node := n.relabel (.byName r)

theorem Variable.rename_injective {r : String → String} (hr : Function.Injective r) :
    Function.Injective (Variable.rename r) := by
  rintro ⟨id, name, type⟩ ⟨id', name', type'⟩ h
  simp only [rename, mk.injEq] at h
  rw [h.1, hr h.2.1, h.2.2]

theorem Function.rename_injective {r : String → String} (hr : Function.Injective r) :
    Function.Injective (Function.rename r) := by
  rintro ⟨id, name, params⟩ ⟨id', name', params'⟩ h
  simp only [rename, mk.injEq] at h
  rw [h.1, hr h.2.1, List.map_injective_iff.mpr (Variable.rename_injective hr) h.2.2]

theorem Entity.rename_injective {r : String → String} (hr : Function.Injective r) :
    Function.Injective (Entity.rename r) := by
  rintro (v | f) (w | g) h
  · rw [Variable.rename_injective hr (Entity.var.inj h)]
  · cases h
  · cases h
  · rw [Function.rename_injective hr (Entity.function.inj h)]

@[simp] theorem Node.type_rename (r : String → String) (n : Node) : (n.rename r).type = n.type := by
  cases n with
  | number a => cases a <;> rfl
  | _ => rfl

theorem Node.renameAll_eq_map (r : String → String) (ns : List Node) :
    relabelAll (.byName r) ns = ns.map (Node.rename r) :=
  relabelAll_eq_map (.byName r) ns

section

variable (r : String → String)

theorem Node.rename_list (items : List Node) :
    (list items).rename r = list (items.map (Node.rename r)) := by
  rw [Node.rename, relabel, renameAll_eq_map]

theorem Node.rename_program (statements : List Node) :
    (program statements).rename r = program (statements.map (Node.rename r)) := by
  rw [Node.rename, relabel, renameAll_eq_map]

theorem Node.rename_shortIf (test : Node) (consequence : List Node) :
    (shortIf test consequence).rename r =
      shortIf (test.rename r) (consequence.map (Node.rename r)) := by
  rw [Node.rename, relabel, renameAll_eq_map]
  rfl

theorem Node.rename_ifElse (test : Node) (consequence : List Node) (alternate : Node) :
    (ifElse test consequence alternate).rename r =
      ifElse (test.rename r) (consequence.map (Node.rename r)) (alternate.rename r) := by
  rw [Node.rename, relabel, renameAll_eq_map]
  rfl

theorem Node.rename_whileLoop (test : Node) (body : List Node) :
    (whileLoop test body).rename r =
      whileLoop (test.rename r) (body.map (Node.rename r)) := by
  rw [Node.rename, relabel, renameAll_eq_map]
  rfl

theorem Node.rename_forLoop (declaration test increment : Node) (body : List Node)
    (unrolled : Bool) : (forLoop declaration test increment body unrolled).rename r =
      forLoop (declaration.rename r) (test.rename r) (increment.rename r)
        (body.map (Node.rename r)) unrolled := by
  rw [Node.rename, relabel, renameAll_eq_map]
  rfl

theorem Node.rename_forEach (iterator : Variable) (collection : Node) (body : List Node) :
    (forEach iterator collection body).rename r =
      forEach (iterator.rename r) (collection.rename r) (body.map (Node.rename r)) := by
  rw [Node.rename, relabel, renameAll_eq_map]
  rfl

theorem Node.rename_define (f : Function) (body : List Node) :
    (define f body).rename r = define (f.rename r) (body.map (Node.rename r)) := by
  rw [Node.rename, relabel, renameAll_eq_map]
  rfl

theorem Node.rename_call (callee : Function) (args : List Node) (type : Ty) :
    (call callee args type).rename r =
      call (callee.rename r) (args.map (Node.rename r)) type := by
  rw [Node.rename, relabel, renameAll_eq_map]
  rfl

theorem Node.rename_array (elements : List Node) (type : Ty) :
    (array elements type).rename r = array (elements.map (Node.rename r)) type := by
  rw [Node.rename, relabel, renameAll_eq_map]

end

/-! ## Programs as they are written -/

namespace Surface

mutual

/-- An expression with other names. -/
def Expr.rename (r : String → String) : Expr → Expr
  | .int pos value => .int pos value
  | .float pos value => .float pos value
  | .bool pos value => .bool pos value
  | .string pos value => .string pos value
  | .var pos name => .var pos (r name)
  | .array pos elements => .array pos (renameExprs r elements)
  | .index pos array index => .index pos (array.rename r) (index.rename r)
  | .call pos callee args => .call pos (r callee) (renameExprs r args)
  | .unary pos op operand => .unary pos op (operand.rename r)
  | .binary pos op left right => .binary pos op (left.rename r) (right.rename r)
  | .conditional pos consequent test alternate =>
    .conditional pos (consequent.rename r) (test.rename r) (alternate.rename r)
  | .stray kind => .stray kind

/-- Some expressions with other names. -/
def renameExprs (r : String → String) : List Expr → List Expr
  | [] => []
  | e :: rest => e.rename r :: renameExprs r rest

end

@[simp] theorem Expr.pos_rename (r : String → String) (e : Expr) : (e.rename r).pos = e.pos := by
  cases e <;> rfl

theorem positions_rename (r : String → String) (es : List Expr) :
    (renameExprs r es).map Expr.pos = es.map Expr.pos := by
  induction es with
  | nil => rfl
  | cons e rest ih => rw [renameExprs, List.map_cons, List.map_cons, Expr.pos_rename, ih]

/-- A binding with other names. -/
def Binding.rename (r : String → String) (b : Binding) : Binding :=
  ⟨b.pos, r b.name, b.value.rename r⟩

/-- A parameter under another name. -/
def Param.rename (r : String → String) (p : Param) : Param := ⟨p.pos, r p.name⟩

mutual

/-- A statement with other names. -/
def Stmt.rename (r : String → String) : Stmt → Stmt
  | .print pos value => .print pos (value.rename r)
  | .declare b => .declare (b.rename r)
  | .assign b => .assign (b.rename r)
  | .branch pos test body rest =>
    .branch pos (test.rename r) (renameStmts r body) (rest.rename r)
  | .whileLoop pos test body => .whileLoop pos (test.rename r) (renameStmts r body)
  | .forLoop pos init test update body =>
    .forLoop pos (init.rename r) (test.rename r) (update.rename r) (renameStmts r body)
  | .forEach pos collection name body =>
    .forEach pos (collection.rename r) (r name) (renameStmts r body)
  | .function pos name params body =>
    .function pos (r name) (params.map (Param.rename r)) (renameStmts r body)
  | .exit pos => .exit pos
  | .ret pos value => .ret pos (value.map (Expr.rename r))
  | .call pos callee args => .call pos (r callee) (renameExprs r args)
  | .stray kind => .stray kind

/-- Some statements with other names. -/
def renameStmts (r : String → String) : List Stmt → List Stmt
  | [] => []
  | s :: rest => s.rename r :: renameStmts r rest

/-- What follows the body of a branch, with other names. -/
def Else.rename (r : String → String) : Else → Else
  | .absent => .absent
  | .body body => .body (renameStmts r body)
  | .branch pos test body rest =>
    .branch pos (test.rename r) (renameStmts r body) (rest.rename r)
  | .stray kind => .stray kind

end

/-- A program with other names. -/
def Program.rename (r : String → String) (p : Program) : Program := ⟨renameStmts r p.statements⟩

end Surface

/-! ## Scopes and faults -/

/-- A scope with other names. -/
def Scope.rename (r : String → String) (s : Scope) : Scope :=
  ⟨s.locals.map (fun entry => (r entry.1, entry.2.rename r)), s.inLoop,
    s.owner?.map (Entity.rename r)⟩

/-- A chain of scopes with other names. -/
def Chain.rename (r : String → String) (chain : Chain) : Chain := List.map (Scope.rename r) chain

/-- Surroundings with other names. -/
def Resolve.Env.rename (r : String → String) (env : Env) : Env := ⟨env.chain.rename r, env.fresh⟩

/-- A fault about another name. -/
def ScopeFault.rename (r : String → String) : ScopeFault → ScopeFault
  | alreadyDeclared name => alreadyDeclared (r name)
  | notDeclared name => notDeclared (r name)

/-- A broken rule that speaks of another name. -/
def RuleBreak.rename (r : String → String) : RuleBreak → RuleBreak
  | scope fault => scope (fault.rename r)
  | notAFunction name => notAFunction (r name)
  | assignToFunction name => assignToFunction (r name)
  | functionAsValue name => functionAsValue (r name)
  | broken => broken

/-- A fault that speaks of another name. -/
def ResolveFault.rename (r : String → String) : ResolveFault → ResolveFault
  | rule broken pos => rule (broken.rename r) pos
  | fault => fault

theorem RuleBreak.category_rename (r : String → String) (broken : RuleBreak) :
    (broken.rename r).category = broken.category := by
  cases broken with
  | scope fault => cases fault <;> rfl
  | _ => rfl

namespace Resolve

section

variable {r : String → String} {α β γ δ : Type}

/-- The second outcome is the first one with other names. -/
def Mirrors (r : String → String) (f : α → β) (x : Resolved α) (y : Resolved β) : Prop :=
  y = match x with
    | .ok a => .ok (f a)
    | .error fault => .error (fault.rename r)

theorem Mirrors.ok (f : α → β) (a : α) : Mirrors r f (.ok a) (.ok (f a)) := rfl

theorem Mirrors.error (f : α → β) (fault : ResolveFault) :
    Mirrors r f (.error fault) (.error (fault.rename r)) := rfl

theorem Mirrors.of_eq {f : α → β} {a : α} {b : β} (h : f a = b) :
    Mirrors r f (.ok a) (.ok b) := by
  rw [← h]
  rfl

theorem Mirrors.pair {f : α → β} {g : γ → δ} {a : α} {b : β} (c : γ) (h : f a = b) :
    Mirrors r (Prod.map f g) (.ok (a, c)) (.ok (b, g c)) :=
  .of_eq (Prod.ext h rfl)

/-- What follows mirrored outcomes only has to be mirrored for what they give. -/
theorem Mirrors.bind {f : α → β} {g : γ → δ} {x : Resolved α} {y : Resolved β}
    {k : α → Resolved γ} {l : β → Resolved δ} (hx : Mirrors r f x y)
    (hk : ∀ a, Mirrors r g (k a) (l (f a))) : Mirrors r g (x >>= k) (y >>= l) := by
  cases x with
  | ok a =>
    cases hx
    exact hk a
  | error fault =>
    cases hx
    rfl

/-- A requirement that does not depend on names. -/
theorem require_mirrors (condition : Bool) {broken : RuleBreak} (pos : Pos)
    (h : broken.rename r = broken) :
    Mirrors r id (require condition broken pos) (require condition broken pos) := by
  unfold require
  split_ifs
  · exact .ok id ()
  · have hfault : ResolveFault.rule broken pos = (ResolveFault.rule broken pos).rename r := by
      rw [ResolveFault.rename, h]
    rw [Mirrors, ← hfault]

/-! ## Operations on resolved operands

They look at the types of their operands, which no renaming changes. -/

theorem checkBoolean_mirrors (strict : Bool) (n : Node) (pos : Pos) :
    Mirrors r id (checkBoolean strict n pos) (checkBoolean strict (n.rename r) pos) := by
  rw [checkBoolean, checkBoolean, Node.type_rename]
  exact require_mirrors _ pos rfl

theorem checkNumber_mirrors (n : Node) (pos : Pos) :
    Mirrors r id (checkNumber n pos) (checkNumber (n.rename r) pos) := by
  rw [checkNumber, checkNumber, Node.type_rename]
  exact require_mirrors _ pos rfl

theorem checkOperands_mirrors (left right : Node) (pos : Pos) :
    Mirrors r id (checkOperands left right pos)
      (checkOperands (left.rename r) (right.rename r) pos) := by
  rw [checkOperands, checkOperands, Node.type_rename, Node.type_rename]
  exact require_mirrors _ pos rfl

theorem unary_mirrors (strict : Bool) (op : Op) (operand : Node) (pos : Pos) :
    Mirrors r (Node.rename r) (unary strict op operand pos)
      (unary strict op (operand.rename r) pos) := by
  unfold unary
  split_ifs
  · exact (checkBoolean_mirrors strict operand pos).bind fun _ => .ok _ _
  · rw [Node.type_rename]
    exact (require_mirrors _ pos rfl).bind fun _ => .ok _ _

theorem checkArithmetic_mirrors (op : Op) (left right : Node) (leftPos rightPos : Pos) :
    Mirrors r id (checkArithmetic op left right leftPos rightPos)
      (checkArithmetic op (left.rename r) (right.rename r) leftPos rightPos) := by
  unfold checkArithmetic
  split_ifs
  · rw [Node.type_rename]
    exact (require_mirrors _ leftPos rfl).bind fun _ => checkOperands_mirrors left right rightPos
  · refine (checkNumber_mirrors left leftPos).bind fun _ => ?_
    refine (checkNumber_mirrors right rightPos).bind fun _ => ?_
    exact checkOperands_mirrors left right rightPos

theorem arithmeticType_rename (left right : Node) :
    arithmeticType (left.rename r) (right.rename r) = arithmeticType left right := by
  rw [arithmeticType, Node.type_rename, Node.type_rename, arithmeticType]

theorem binary_mirrors (strict : Bool) (op : Op) (left right : Node) (leftPos rightPos : Pos) :
    Mirrors r (Node.rename r) (binary strict op left right leftPos rightPos)
      (binary strict op (left.rename r) (right.rename r) leftPos rightPos) := by
  unfold binary
  split_ifs
  · refine (checkBoolean_mirrors strict left leftPos).bind fun _ => ?_
    exact (checkBoolean_mirrors strict right rightPos).bind fun _ => .ok _ _
  · exact (checkOperands_mirrors left right rightPos).bind fun _ => .ok _ _
  · exact .ok _ _
  · rw [arithmeticType_rename]
    exact (checkArithmetic_mirrors op left right leftPos rightPos).bind fun _ => .ok _ _
  · rw [arithmeticType_rename]
    exact .ok _ _

theorem checkElements_mirrors (first : Ty) : ∀ rest : List (Node × Pos),
    Mirrors r id (checkElements first rest)
      (checkElements first (rest.map (fun item => (item.1.rename r, item.2))))
  | [] => .ok id ()
  | (n, pos) :: rest => by
    rw [checkElements, List.map_cons, checkElements, Node.type_rename]
    exact (require_mirrors _ pos rfl).bind fun _ => checkElements_mirrors first rest

theorem array_mirrors (strict : Bool) (elements : List Node) (positions : List Pos) :
    Mirrors r (Node.rename r) (array strict elements positions)
      (array strict (elements.map (Node.rename r)) positions) := by
  cases elements with
  | nil => exact .ok _ _
  | cons first rest =>
    have hzip : (rest.map (Node.rename r)).zip positions.tail =
        (rest.zip positions.tail).map (fun item => (item.1.rename r, item.2)) := by
      rw [List.zip_map_left]
      rfl
    have hresult : Mirrors r (Node.rename r) (.ok (.array (first :: rest) (.array first.type)))
        (.ok (.array ((first :: rest).map (Node.rename r)) (.array first.type))) :=
      .of_eq (Node.rename_array r _ _)
    rw [List.map_cons, array, array, Node.type_rename, hzip]
    split_ifs
    · exact (checkElements_mirrors first.type _).bind fun _ => hresult
    · exact hresult

theorem index_mirrors (strict : Bool) (a i : Node) (arrayPos indexPos : Pos) :
    Mirrors r (Node.rename r) (index strict a i arrayPos indexPos)
      (index strict (a.rename r) (i.rename r) arrayPos indexPos) := by
  unfold index
  rw [Node.type_rename, Node.type_rename]
  split_ifs
  · refine (require_mirrors _ indexPos rfl).bind fun _ => ?_
    cases a.type with
    | array _ | string | any => exact .ok _ _
    | _ => exact .error _ _
  · cases a.type <;> exact .ok _ _

/-! ## Names -/

theorem find?_rename (hr : Function.Injective r) (s : Scope) (name : String) :
    (s.rename r).find? (r name) = (s.find? name).map (Entity.rename r) := by
  have hsame : (fun entry : String × Entity => decide (entry.1 = r name)) ∘
      (fun entry : String × Entity => (r entry.1, entry.2.rename r)) =
        fun entry => decide (entry.1 = name) := by
    funext entry
    simp [hr.eq_iff]
  rw [Scope.find?, Scope.rename, List.find?_map, hsame, Option.map_map, Scope.find?, Option.map_map]
  rfl

theorem resolve?_rename (hr : Function.Injective r) (chain : Chain) (name : String) :
    (chain.rename r).resolve? (r name) = (chain.resolve? name).map (Entity.rename r) := by
  have hfind : (fun s => Scope.find? s (r name)) ∘ Scope.rename r =
      Option.map (Entity.rename r) ∘ fun s => s.find? name := by
    funext s
    exact find?_rename hr s name
  rw [Chain.resolve?, Chain.rename, List.findSome?_map, hfind, Chain.resolve?, List.map_findSome?]

theorem isStrict_rename (chain : Chain) : isStrict (chain.rename r) = isStrict chain := by
  cases chain with
  | nil => rfl
  | cons s outer => simp [Chain.rename, isStrict, Scope.strict, Scope.rename]

theorem entity_mirrors (hr : Function.Injective r) (chain : Chain) (name : String) (pos : Pos) :
    Mirrors r (Entity.rename r) (entity chain name pos) (entity (chain.rename r) (r name) pos) := by
  unfold entity
  rw [resolve?_rename hr]
  cases chain.resolve? name with
  | none => exact .error _ _
  | some e => exact .ok _ e

theorem variableUse_mirrors (hr : Function.Injective r) (chain : Chain) (name : String)
    (pos : Pos) : Mirrors r (Variable.rename r) (variableUse chain name pos)
      (variableUse (chain.rename r) (r name) pos) := by
  refine (entity_mirrors hr chain name pos).bind fun e => ?_
  cases e with
  | var v => exact .ok _ v
  | function f => exact .error _ _

theorem assignTarget_mirrors (hr : Function.Injective r) (chain : Chain) (name : String)
    (pos : Pos) : Mirrors r (Variable.rename r) (assignTarget chain name pos)
      (assignTarget (chain.rename r) (r name) pos) := by
  refine (entity_mirrors hr chain name pos).bind fun e => ?_
  cases e with
  | var v => exact .ok _ v
  | function f => exact .error _ _

theorem calledFunction_mirrors (hr : Function.Injective r) (chain : Chain) (name : String)
    (pos : Pos) : Mirrors r (Function.rename r) (calledFunction chain name pos)
      (calledFunction (chain.rename r) (r name) pos) := by
  refine (entity_mirrors hr chain name pos).bind fun e => ?_
  cases e with
  | var v => exact .error _ _
  | function f => exact .ok _ f

theorem call_mirrors (f : Function) (args : List Node) (pos : Pos) :
    Mirrors r (Node.rename r) (call f args pos)
      (call (f.rename r) (args.map (Node.rename r)) pos) := by
  have hparams : (f.rename r).params.length = f.params.length := List.length_map _
  rw [call, call, hparams, List.length_map]
  exact (require_mirrors _ pos rfl).bind fun _ => .of_eq (Node.rename_call r f args .any)

/-! ## Expressions -/

mutual

/-- A renamed expression is resolved like the expression itself. -/
theorem expr_mirrors (hr : Function.Injective r) (chain : Chain) : ∀ e : Surface.Expr,
    Mirrors r (Node.rename r) (expr chain e) (expr (chain.rename r) (e.rename r))
  | .int _ _ | .float _ _ | .bool _ _ | .string _ _ => .ok _ _
  | .var pos name => by
    exact (variableUse_mirrors hr chain name pos).bind fun v => .ok _ (Node.var v)
  | .array _ elements => by
    rw [Surface.Expr.rename, expr, expr, isStrict_rename, Surface.positions_rename]
    exact (exprs_mirrors hr chain elements).bind fun nodes => array_mirrors _ nodes _
  | .index _ a i => by
    rw [Surface.Expr.rename, expr, expr, isStrict_rename, Surface.Expr.pos_rename,
      Surface.Expr.pos_rename]
    refine (expr_mirrors hr chain a).bind fun arrayNode => ?_
    exact (expr_mirrors hr chain i).bind fun indexNode => index_mirrors _ arrayNode indexNode _ _
  | .call pos callee args => by
    refine (calledFunction_mirrors hr chain callee pos).bind fun f => ?_
    exact (exprs_mirrors hr chain args).bind fun nodes => call_mirrors f nodes pos
  | .unary pos op operand => by
    rw [Surface.Expr.rename, expr, expr, isStrict_rename]
    exact (expr_mirrors hr chain operand).bind fun n => unary_mirrors _ op n pos
  | .binary _ op left right => by
    rw [Surface.Expr.rename, expr, expr, isStrict_rename, Surface.Expr.pos_rename,
      Surface.Expr.pos_rename]
    refine (expr_mirrors hr chain left).bind fun l => ?_
    exact (expr_mirrors hr chain right).bind fun n => binary_mirrors _ op l n _ _
  | .conditional _ consequent test alternate => by
    rw [Surface.Expr.rename, expr, expr, isStrict_rename, Surface.Expr.pos_rename]
    refine (expr_mirrors hr chain consequent).bind fun c => ?_
    refine (expr_mirrors hr chain test).bind fun t => ?_
    refine (checkBoolean_mirrors _ t _).bind fun _ => ?_
    refine (expr_mirrors hr chain alternate).bind fun a => ?_
    rw [Node.type_rename]
    exact .ok _ (Node.conditional c t a c.type)
  | .stray kind => .error _ _

theorem exprs_mirrors (hr : Function.Injective r) (chain : Chain) : ∀ es : List Surface.Expr,
    Mirrors r (List.map (Node.rename r)) (exprs chain es)
      (exprs (chain.rename r) (Surface.renameExprs r es))
  | [] => .ok _ []
  | e :: rest => by
    refine (expr_mirrors hr chain e).bind fun n => ?_
    exact (exprs_mirrors hr chain rest).bind fun others => .ok _ (n :: others)

end

/-! ## Statements -/

theorem declare?_rename (hr : Function.Injective r) (s : Scope) (name : String) (e : Entity) :
    (s.rename r).declare? (r name) (e.rename r) = (s.declare? name e).map (Scope.rename r) := by
  rw [Scope.declare?, find?_rename hr, Option.isSome_map, Scope.declare?]
  split_ifs
  · rfl
  · simp [Scope.rename]

theorem declare_mirrors (hr : Function.Injective r) (env : Env) (name : String) (e : Entity)
    (pos : Pos) : Mirrors r (Env.rename r) (env.declare name e pos)
      ((env.rename r).declare (r name) (e.rename r) pos) := by
  obtain ⟨chain, fresh⟩ := env
  cases chain with
  | nil => exact .ok _ _
  | cons top outer =>
    simp only [Env.declare, Env.rename, Chain.rename, List.map_cons, declare?_rename hr]
    cases top.declare? name e with
    | none => exact .error _ _
    | some top => exact .ok (Env.rename r) ⟨top :: outer, fresh⟩

theorem declareVariable_mirrors (hr : Function.Injective r) (env : Env) (name : String) (type : Ty)
    (pos : Pos) :
    Mirrors r (Prod.map (Variable.rename r) (Env.rename r)) (env.declareVariable name type pos)
      ((env.rename r).declareVariable (r name) type pos) :=
  (declare_mirrors hr ⟨env.chain, env.fresh + 1⟩ name (.var ⟨env.fresh, name, type⟩) pos).bind
    fun env' => .ok (Prod.map (Variable.rename r) (Env.rename r)) (⟨env.fresh, name, type⟩, env')

theorem inside_rename (env : Env) (inLoop : Bool) (function? : Option Function) :
    (env.rename r).inside inLoop (function?.map (Function.rename r)) =
      (env.inside inLoop function?).rename r := by
  obtain ⟨chain, fresh⟩ := env
  cases chain <;> cases function? <;> rfl

theorem declaration_mirrors (hr : Function.Injective r) (env : Env) (b : Surface.Binding) :
    Mirrors r (Prod.map (Node.rename r) (Env.rename r)) (declaration env b)
      (declaration (env.rename r) (b.rename r)) := by
  refine (expr_mirrors hr env.chain b.value).bind fun initializer => ?_
  rw [Node.type_rename]
  refine (declareVariable_mirrors hr env b.name initializer.type b.pos).bind ?_
  rintro ⟨v, env'⟩
  exact .ok (Prod.map (Node.rename r) (Env.rename r)) (Node.declare v initializer, env')

theorem assignment_mirrors (hr : Function.Injective r) (env : Env) (b : Surface.Binding) :
    Mirrors r (Node.rename r) (assignment env b) (assignment (env.rename r) (b.rename r)) := by
  refine (assignTarget_mirrors hr env.chain b.name b.pos).bind fun target => ?_
  refine (expr_mirrors hr env.chain b.value).bind fun source => ?_
  have hstrict : isStrict (env.rename r).chain = isStrict env.chain := isStrict_rename env.chain
  rw [hstrict, Node.type_rename]
  exact (require_mirrors _ b.pos rfl).bind fun _ => .ok _ (Node.assign target source)

theorem test_mirrors (hr : Function.Injective r) (env : Env) (e : Surface.Expr) :
    Mirrors r (Node.rename r) (test env e) (test (env.rename r) (e.rename r)) := by
  refine (expr_mirrors hr env.chain e).bind fun n => ?_
  have hstrict : isStrict (env.rename r).chain = isStrict env.chain := isStrict_rename env.chain
  rw [hstrict, Surface.Expr.pos_rename]
  exact (checkBoolean_mirrors _ n e.pos).bind fun _ => .ok _ n

theorem paramVariables_rename (first : Nat) (params : List Surface.Param) :
    paramVariables first (params.map (Surface.Param.rename r)) =
      (paramVariables first params).map (Variable.rename r) := by
  induction params generalizing first with
  | nil => rfl
  | cons p rest ih =>
    rw [List.map_cons, paramVariables, ih, paramVariables, List.map_cons]
    rfl

theorem declareParams_mirrors (hr : Function.Injective r) (env : Env) :
    ∀ pairs : List (Surface.Param × Variable), Mirrors r (Env.rename r) (declareParams env pairs)
      (declareParams (env.rename r)
        (pairs.map (Prod.map (Surface.Param.rename r) (Variable.rename r))))
  | [] => .ok _ env
  | (p, v) :: rest =>
    (declare_mirrors hr env p.name (.var v) p.pos).bind fun env' =>
      declareParams_mirrors hr env' rest

theorem inLoop_rename (env : Env) : (env.rename r).inLoop = env.inLoop := by
  obtain ⟨chain, fresh⟩ := env
  cases chain <;> rfl

theorem inFunction_rename (env : Env) : (env.rename r).inFunction = env.inFunction := by
  obtain ⟨chain, fresh⟩ := env
  cases chain with
  | nil => rfl
  | cons s outer => simp [Env.rename, Chain.rename, Env.inFunction, Scope.rename]

mutual

/-- A renamed statement is resolved like the statement itself. -/
theorem stmt_mirrors (hr : Function.Injective r) (env : Env) : ∀ s : Surface.Stmt,
    Mirrors r (Prod.map (Node.rename r) (Env.rename r)) (stmt env s)
      (stmt (env.rename r) (s.rename r))
  | .print _ value =>
    (expr_mirrors hr env.chain value).bind fun _ => .pair env rfl
  | .declare b => declaration_mirrors hr env b
  | .assign b => (assignment_mirrors hr env b).bind fun _ => .pair env rfl
  | .branch _ e body rest => by
    refine (test_mirrors hr env e).bind fun t => ?_
    refine (stmts_mirrors hr env body).bind ?_
    rintro ⟨consequence, env₁⟩
    refine (alternative_mirrors hr env₁ rest).bind ?_
    rintro ⟨_ | alternate, env₂⟩
    · exact .pair env₂ (Node.rename_shortIf r t consequence)
    · exact .pair env₂ (Node.rename_ifElse r t consequence alternate)
  | .whileLoop _ e body => by
    refine (test_mirrors hr env e).bind fun t => ?_
    have hbody := stmts_mirrors hr (env.inside true none) body
    rw [← inside_rename] at hbody
    refine hbody.bind ?_
    rintro ⟨nodes, inner⟩
    exact .pair (env.leave inner) (Node.rename_whileLoop r t nodes)
  | .forLoop _ init e update body => by
    have hinit := declaration_mirrors hr (env.inside true none) init
    rw [← inside_rename] at hinit
    refine hinit.bind ?_
    rintro ⟨d, inner⟩
    refine (test_mirrors hr inner e).bind fun t => ?_
    refine (assignment_mirrors hr inner update).bind fun increment => ?_
    refine (stmts_mirrors hr inner body).bind ?_
    rintro ⟨nodes, last⟩
    exact .pair (env.leave last) (Node.rename_forLoop r d t increment nodes false)
  | .forEach pos e name body => by
    refine (expr_mirrors hr env.chain e).bind fun collection => ?_
    rw [Node.type_rename, Surface.Expr.pos_rename]
    cases itemType? collection.type with
    | none => exact .error _ _
    | some item =>
      have hitem := declareVariable_mirrors hr (env.inside true none) name item pos
      rw [← inside_rename] at hitem
      refine hitem.bind ?_
      rintro ⟨v, inner⟩
      refine (stmts_mirrors hr inner body).bind ?_
      rintro ⟨nodes, last⟩
      exact .pair (env.leave last) (Node.rename_forEach r v collection nodes)
  | .function pos name params body => by
    have hfresh : (env.rename r).fresh = env.fresh := rfl
    rw [Surface.Stmt.rename, stmt, stmt]
    simp only [paramVariables_rename, List.length_map, hfresh]
    generalize hentities : paramVariables (env.fresh + 1) params = entities
    have hdeclare := declare_mirrors hr ⟨env.chain, env.fresh + 1 + params.length⟩ name
      (.function ⟨env.fresh, name, entities⟩) pos
    refine hdeclare.bind fun env₁ => ?_
    have hinner := declareParams_mirrors hr
      (env₁.inside false (some ⟨env.fresh, name, entities⟩)) (params.zip entities)
    rw [← inside_rename, ← List.zip_map] at hinner
    refine hinner.bind fun inner => ?_
    refine (stmts_mirrors hr inner body).bind ?_
    rintro ⟨nodes, last⟩
    exact .pair (env₁.leave last) (Node.rename_define r _ nodes)
  | .exit pos => by
    rw [Surface.Stmt.rename, stmt, stmt, inLoop_rename]
    exact (require_mirrors _ pos rfl).bind fun _ => .pair env rfl
  | .ret pos value => by
    have hplace : Mirrors r id (require env.inFunction .notInFunction pos)
        (require (env.rename r).inFunction .notInFunction pos) := by
      rw [inFunction_rename]
      exact require_mirrors _ pos rfl
    cases value with
    | none => exact hplace.bind fun _ => .pair env rfl
    | some e =>
      refine hplace.bind fun _ => ?_
      exact (expr_mirrors hr env.chain e).bind fun _ => .pair env rfl
  | .call pos callee args => by
    refine (calledFunction_mirrors hr env.chain callee pos).bind fun f => ?_
    refine (exprs_mirrors hr env.chain args).bind fun nodes => ?_
    exact (call_mirrors f nodes pos).bind fun _ => .pair env rfl
  | .stray kind => .error _ _

theorem stmts_mirrors (hr : Function.Injective r) (env : Env) : ∀ ss : List Surface.Stmt,
    Mirrors r (Prod.map (List.map (Node.rename r)) (Env.rename r)) (stmts env ss)
      (stmts (env.rename r) (Surface.renameStmts r ss))
  | [] => .ok (Prod.map (List.map (Node.rename r)) (Env.rename r)) ([], env)
  | s :: rest => by
    refine (stmt_mirrors hr env s).bind ?_
    rintro ⟨n, env₁⟩
    refine (stmts_mirrors hr env₁ rest).bind ?_
    rintro ⟨others, env₂⟩
    exact .ok (Prod.map (List.map (Node.rename r)) (Env.rename r)) (n :: others, env₂)

theorem alternative_mirrors (hr : Function.Injective r) (env : Env) : ∀ rest : Surface.Else,
    Mirrors r (Prod.map (Option.map (Node.rename r)) (Env.rename r)) (alternative env rest)
      (alternative (env.rename r) (rest.rename r))
  | .absent => .ok (Prod.map (Option.map (Node.rename r)) (Env.rename r)) (none, env)
  | .body body => by
    refine (stmts_mirrors hr env body).bind ?_
    rintro ⟨nodes, env₁⟩
    exact .pair env₁ (congrArg some (Node.rename_list r nodes))
  | .branch _ e body rest => by
    refine (test_mirrors hr env e).bind fun t => ?_
    refine (stmts_mirrors hr env body).bind ?_
    rintro ⟨consequence, env₁⟩
    refine (alternative_mirrors hr env₁ rest).bind ?_
    rintro ⟨_ | alternate, env₂⟩
    · exact .pair env₂ (congrArg some (Node.rename_shortIf r t consequence))
    · exact .pair env₂ (congrArg some (Node.rename_ifElse r t consequence alternate))
  | .stray kind => .error _ _

end

end

end Resolve

/-- A renamed program is resolved like the program itself: to the same tree with other
names, or to the same fault about another name. -/
theorem resolve_rename {r : String → String} (hr : Function.Injective r) (p : Surface.Program) :
    Resolve.Mirrors r (Node.rename r) (resolve p) (resolve (p.rename r)) := by
  refine (Resolve.stmts_mirrors hr .initial p.statements).bind ?_
  rintro ⟨nodes, env⟩
  exact .of_eq (Node.rename_program r nodes)

end Squishc
