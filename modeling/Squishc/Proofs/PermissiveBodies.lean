import Squishc.Proofs.ClosedPipeline
import Squishc.Proofs.TypeRules

/-!
# Bodies of functions

Inside a function the rules on types are not enforced, so whether a body is
accepted is a matter of names and control: names have to be declared before they
are used and not twice in one scope, functions are called with the right number of
arguments and not used as values, and what leaves a loop stands in one.  These
rules are stated here on the surface tree, with no resolved tree in sight.

One rule on types is enforced all the same.  A loop must run over something that
has items, and types are known inside functions wherever they do not go back to a
parameter or a call.

Main results:

- Theorem `expr_judged`: an expression in a function is resolved if and only if it
  keeps the rules on names.
- Theorem `stmts_judged`: what becomes of statements in a function.
- Theorem `function_body_verdict`: a function is accepted if and only if it keeps the
  rules on names and control and its loops have items; if only its loops lack them,
  that is what is reported.
- Theorem `truthLoop_refused`: a function that is refused for a type.
-/

namespace Squishc

namespace Ty

/-- A loop can run over values of the type. -/
def HasItems (t : Ty) : Prop := (∃ element, t = array element) ∨ t = int ∨ t = string ∨ t = any

/-- The type of the items, where there are any. -/
def item : Ty → Ty
  | array element => element
  | t => t

theorem itemType?_eq (t : Ty) :
    (t.HasItems ∧ Resolve.itemType? t = some t.item) ∨
      (¬ t.HasItems ∧ Resolve.itemType? t = none) := by
  cases t with
  | array element => exact .inl ⟨.inl ⟨element, rfl⟩, rfl⟩
  | int => exact .inl ⟨.inr (.inl rfl), rfl⟩
  | string => exact .inl ⟨.inr (.inr (.inl rfl)), rfl⟩
  | any => exact .inl ⟨.inr (.inr (.inr rfl)), rfl⟩
  | boolean | float | void => exact .inr ⟨by simp [HasItems], rfl⟩

end Ty

/-! ## What is known of names -/

/-- What is known of a name: the type of a variable, or how many parameters a function
has. -/
inductive Role where
  | variable (type : Ty)
  | function (arity : Nat)
deriving DecidableEq, Repr

/-- What is known of an entity. -/
def Entity.role : Entity → Role
  | var v => .variable v.type
  | function f => .function f.params.length

/-- What is known of names at a place in a function: which are declared in the innermost
scope, what each stands for, and whether a loop of the function surrounds the place. -/
structure Outlook where
  here : List String
  visible : String → Option Role
  inLoop : Bool

namespace Outlook

/-- The outlook after a declaration. -/
def declare (o : Outlook) (name : String) (role : Role) : Outlook :=
  ⟨o.here ++ [name], fun other => if other = name then some role else o.visible other, o.inLoop⟩

/-- The outlook in a new scope. -/
def inside (o : Outlook) (inLoop : Bool) : Outlook := ⟨[], o.visible, inLoop⟩

/-- The outlook after the declaration of parameters. -/
def declareParams (o : Outlook) : List Surface.Param → Outlook
  | [] => o
  | p :: rest => (o.declare p.name (.variable .any)).declareParams rest

end Outlook

/-! ## The rules on names and control -/

namespace Surface

mutual

/-- The type of an expression where the rules on types are not enforced. -/
def Expr.looseType (visible : String → Option Role) : Expr → Ty
  | .int _ _ => .int
  | .float _ _ => .float
  | .bool _ _ => .boolean
  | .string _ _ => .string
  | .var _ name =>
    match visible name with
    | some (.variable type) => type
    | _ => .any
  | .array _ elements => .array (looseFirst visible elements)
  | .index _ a _ =>
    match a.looseType visible with
    | .array element => element
    | _ => .any
  | .call _ _ _ => .any
  | .unary _ op operand => if op = .not then .boolean else operand.looseType visible
  | .binary _ op left right => op.resultType (left.looseType visible) (right.looseType visible)
  | .conditional _ consequent _ _ => consequent.looseType visible
  | .stray _ => .any

/-- The type of the first of some expressions, which is unknown if there are none. -/
def looseFirst (visible : String → Option Role) : List Expr → Ty
  | [] => .any
  | first :: _ => first.looseType visible

end

mutual

/-- An expression keeps the rules on names: each stands for something, variables are used
as values, and functions are called with one argument for each parameter. -/
def Expr.Lawful (visible : String → Option Role) : Expr → Prop
  | .var _ name => ∃ type, visible name = some (.variable type)
  | .call _ callee args => visible callee = some (.function args.length) ∧ LawfulArgs visible args
  | .array _ elements => LawfulArgs visible elements
  | .index _ a i => a.Lawful visible ∧ i.Lawful visible
  | .unary _ _ operand => operand.Lawful visible
  | .binary _ _ left right => left.Lawful visible ∧ right.Lawful visible
  | .conditional _ consequent test alternate =>
    consequent.Lawful visible ∧ test.Lawful visible ∧ alternate.Lawful visible
  | .stray _ => False
  | .int _ _ | .float _ _ | .bool _ _ | .string _ _ => True

/-- Some expressions keep the rules on names. -/
def LawfulArgs (visible : String → Option Role) : List Expr → Prop
  | [] => True
  | e :: rest => e.Lawful visible ∧ LawfulArgs visible rest

end

/-- The outlook after a declaration. -/
def Binding.after (o : Outlook) (b : Binding) : Outlook :=
  o.declare b.name (.variable (b.value.looseType o.visible))

/-- A declaration keeps the rules on names. -/
def Binding.LawfulDeclare (o : Outlook) (b : Binding) : Prop :=
  b.value.Lawful o.visible ∧ b.name ∉ o.here

/-- An assignment keeps the rules on names. -/
def Binding.LawfulAssign (o : Outlook) (b : Binding) : Prop :=
  (∃ type, o.visible b.name = some (.variable type)) ∧ b.value.Lawful o.visible

/-- No two parameters have one name, and none has a name that is declared already. -/
def LawfulParams (o : Outlook) : List Param → Prop
  | [] => True
  | p :: rest => p.name ∉ o.here ∧ LawfulParams (o.declare p.name (.variable .any)) rest

mutual

/-- The outlook after a statement. -/
def Stmt.after (o : Outlook) : Stmt → Outlook
  | .declare b => b.after o
  | .branch _ _ body rest => rest.after (afterAll o body)
  | .function _ name params _ => o.declare name (.function params.length)
  | _ => o

/-- The outlook after some statements. -/
def afterAll (o : Outlook) : List Stmt → Outlook
  | [] => o
  | s :: rest => afterAll (s.after o) rest

/-- The outlook after the alternative of a branch. -/
def Else.after (o : Outlook) : Else → Outlook
  | .body body => afterAll o body
  | .branch _ _ body rest => rest.after (afterAll o body)
  | .absent | .stray _ => o

end

/-- The outlook in the body of a function that is declared under the given outlook. -/
def bodyOutlook (o : Outlook) (name : String) (params : List Param) : Outlook :=
  ((o.declare name (.function params.length)).inside false).declareParams params

/-- The outlook in the body of a loop over a collection. -/
def itemOutlook (o : Outlook) (collection : Expr) (name : String) : Outlook :=
  (o.inside true).declare name (.variable (collection.looseType o.visible).item)

mutual

/-- A statement in a function keeps the rules on names and control. -/
def Stmt.Lawful (o : Outlook) : Stmt → Prop
  | .print _ value => value.Lawful o.visible
  | .declare b => b.LawfulDeclare o
  | .assign b => b.LawfulAssign o
  | .branch _ test body rest =>
    test.Lawful o.visible ∧ LawfulAll o body ∧ rest.Lawful (afterAll o body)
  | .whileLoop _ test body => test.Lawful o.visible ∧ LawfulAll (o.inside true) body
  | .forLoop _ init test update body =>
    init.LawfulDeclare (o.inside true) ∧ test.Lawful (init.after (o.inside true)).visible ∧
      update.LawfulAssign (init.after (o.inside true)) ∧
      LawfulAll (init.after (o.inside true)) body
  | .forEach _ collection name body =>
    collection.Lawful o.visible ∧ LawfulAll (itemOutlook o collection name) body
  | .function _ name params body =>
    name ∉ o.here ∧
      LawfulParams ((o.declare name (.function params.length)).inside false) params ∧
      LawfulAll (bodyOutlook o name params) body
  | .exit _ => o.inLoop = true
  | .ret _ none => True
  | .ret _ (some value) => value.Lawful o.visible
  | .call _ callee args =>
    o.visible callee = some (.function args.length) ∧ LawfulArgs o.visible args
  | .stray _ => False

/-- Some statements keep the rules on names and control. -/
def LawfulAll (o : Outlook) : List Stmt → Prop
  | [] => True
  | s :: rest => s.Lawful o ∧ LawfulAll (s.after o) rest

/-- The alternative of a branch keeps the rules on names and control. -/
def Else.Lawful (o : Outlook) : Else → Prop
  | .absent => True
  | .body body => LawfulAll o body
  | .branch _ test body rest =>
    test.Lawful o.visible ∧ LawfulAll o body ∧ rest.Lawful (afterAll o body)
  | .stray _ => False

end

mutual

/-- Every loop over a collection in a statement has items. -/
def Stmt.LoopsHaveItems (o : Outlook) : Stmt → Prop
  | .branch _ _ body rest => AllLoopsHaveItems o body ∧ rest.LoopsHaveItems (afterAll o body)
  | .whileLoop _ _ body => AllLoopsHaveItems (o.inside true) body
  | .forLoop _ init _ _ body => AllLoopsHaveItems (init.after (o.inside true)) body
  | .forEach _ collection name body =>
    (collection.looseType o.visible).HasItems ∧
      AllLoopsHaveItems (itemOutlook o collection name) body
  | .function _ name params body => AllLoopsHaveItems (bodyOutlook o name params) body
  | _ => True

/-- Every loop over a collection in some statements has items. -/
def AllLoopsHaveItems (o : Outlook) : List Stmt → Prop
  | [] => True
  | s :: rest => s.LoopsHaveItems o ∧ AllLoopsHaveItems (s.after o) rest

/-- Every loop over a collection in the alternative of a branch has items. -/
def Else.LoopsHaveItems (o : Outlook) : Else → Prop
  | .body body => AllLoopsHaveItems o body
  | .branch _ _ body rest => AllLoopsHaveItems o body ∧ rest.LoopsHaveItems (afterAll o body)
  | .absent | .stray _ => True

end

end Surface

namespace Resolve

/-! ## Verdicts -/

/-- What becomes of a step: it gives a good result if two conditions hold, it fails for
want of items if only the first does, and it fails in some way otherwise. -/
structure Judged {α : Type} (r : Resolved α) (lawful loops : Prop) (good : α → Prop) : Prop where
  accepted : lawful → loops → ∃ a, r = .ok a ∧ good a
  lacking : lawful → ¬ loops → ∃ t pos, ¬ t.HasItems ∧ r = .error (.rule (.notIterable t) pos)
  only : ∀ a, r = .ok a → lawful ∧ loops

namespace Judged

variable {α β : Type} {lawful loops lawful' loops' : Prop} {good : α → Prop} {good' : β → Prop}

theorem ok {a : α} (h : good a) : Judged (.ok a) True True good :=
  ⟨fun _ _ => ⟨a, rfl, h⟩, fun _ hnot => absurd trivial hnot, fun _ _ => ⟨trivial, trivial⟩⟩

theorem error {f : ResolveFault} : Judged (.error f) False True good :=
  ⟨fun h => h.elim, fun h => h.elim, fun _ h => by cases h⟩

theorem of_iff {r : Resolved α} (h : Judged r lawful loops good) (hlawful : lawful' ↔ lawful)
    (hloops : loops' ↔ loops) : Judged r lawful' loops' good := by
  rw [propext hlawful, propext hloops]
  exact h

theorem mono {good' : α → Prop} {r : Resolved α} (h : Judged r lawful loops good)
    (himp : ∀ a, good a → good' a) : Judged r lawful loops good' := by
  refine ⟨?_, h.lacking, h.only⟩
  intro hlawful hloops
  rcases h.accepted hlawful hloops with ⟨a, ha, hgood⟩
  exact ⟨a, ha, himp a hgood⟩

/-- A loop without items. -/
theorem lacks {t : Ty} {pos : Pos} (ht : ¬ t.HasItems) (hloops : ¬ loops) :
    Judged (.error (.rule (.notIterable t) pos)) lawful loops good :=
  ⟨fun _ h => absurd h hloops, fun _ _ => ⟨t, pos, ht, rfl⟩, fun _ h => by cases h⟩

/-- Two steps, one after the other. -/
theorem bind {r : Resolved α} {next : α → Resolved β} (h : Judged r lawful loops good)
    (hnext : ∀ a, good a → Judged (next a) lawful' loops' good') :
    Judged (r >>= next) (lawful ∧ lawful') (loops ∧ loops') good' := by
  constructor
  · rintro ⟨hlawful, hlawful'⟩ ⟨hloops, hloops'⟩
    rcases h.accepted hlawful hloops with ⟨a, rfl, ha⟩
    exact (hnext a ha).accepted hlawful' hloops'
  · rintro ⟨hlawful, hlawful'⟩ hnot
    by_cases hloops : loops
    · rcases h.accepted hlawful hloops with ⟨a, rfl, ha⟩
      exact (hnext a ha).lacking hlawful' fun hloops' => hnot ⟨hloops, hloops'⟩
    · rcases h.lacking hlawful hloops with ⟨t, pos, ht, rfl⟩
      exact ⟨t, pos, ht, rfl⟩
  · intro b hb
    cases r with
    | error f => cases hb
    | ok a =>
      rcases h.only a rfl with ⟨hlawful, hloops⟩
      rcases h.accepted hlawful hloops with ⟨a', ha', hgood⟩
      cases ha'
      rcases (hnext a hgood).only b hb with ⟨hlawful', hloops'⟩
      exact ⟨⟨hlawful, hlawful'⟩, hloops, hloops'⟩

/-- A step that has nothing to do with loops, and another one. -/
theorem bind_names {r : Resolved α} {next : α → Resolved β} (h : Judged r lawful True good)
    (hnext : ∀ a, good a → Judged (next a) lawful' loops' good') :
    Judged (r >>= next) (lawful ∧ lawful') loops' good' :=
  (h.bind hnext).of_iff Iff.rfl (by simp)

/-- A step that always succeeds, and another one. -/
theorem bind_free {r : Resolved α} {next : α → Resolved β} (h : Judged r True True good)
    (hnext : ∀ a, good a → Judged (next a) lawful' loops' good') :
    Judged (r >>= next) lawful' loops' good' :=
  (h.bind hnext).of_iff (by simp) (by simp)

/-- A step, and another one that always succeeds. -/
theorem bind_ok {r : Resolved α} {next : α → Resolved β} (h : Judged r lawful loops good)
    (hnext : ∀ a, good a → ∃ b, next a = .ok b ∧ good' b) :
    Judged (r >>= next) lawful loops good' := by
  have hok : ∀ a, good a → Judged (next a) True True good' := by
    intro a ha
    rcases hnext a ha with ⟨b, hb, hgood⟩
    rw [hb]
    exact Judged.ok hgood
  exact (h.bind hok).of_iff (by simp) (by simp)

/-- A further condition that holds anyway. -/
theorem given {r : Resolved α} (hgiven : loops') (h : Judged r lawful loops good) :
    Judged r lawful (loops' ∧ loops) good :=
  h.of_iff Iff.rfl (by simp [hgiven])

end Judged

/-! ## Expressions -/

/-- What is known of a name in a chain of scopes. -/
def visible (chain : Chain) (name : String) : Option Role :=
  (chain.resolve? name).map Entity.role

theorem variableUse_judged (chain : Chain) (name : String) (pos : Pos) :
    Judged (variableUse chain name pos) (∃ type, visible chain name = some (.variable type)) True
      (fun v => visible chain name = some (.variable v.type)) := by
  unfold variableUse entity visible
  cases chain.resolve? name with
  | none => exact Judged.error.of_iff (by simp) Iff.rfl
  | some e =>
    cases e with
    | var v =>
      refine Judged.of_iff (Judged.ok ?_) ?_ Iff.rfl
      · rfl
      · simp [Entity.role]
    | function f => exact Judged.error.of_iff (by simp [Entity.role]) Iff.rfl

theorem assignTarget_judged (chain : Chain) (name : String) (pos : Pos) :
    Judged (assignTarget chain name pos) (∃ type, visible chain name = some (.variable type)) True
      (fun _ => True) := by
  unfold assignTarget entity visible
  cases chain.resolve? name with
  | none => exact Judged.error.of_iff (by simp) Iff.rfl
  | some e =>
    cases e with
    | var v => exact (Judged.ok trivial).of_iff (by simp [Entity.role]) Iff.rfl
    | function f => exact Judged.error.of_iff (by simp [Entity.role]) Iff.rfl

theorem calledFunction_judged (chain : Chain) (name : String) (pos : Pos) :
    Judged (calledFunction chain name pos) (∃ arity, visible chain name = some (.function arity))
      True (fun f => visible chain name = some (.function f.params.length)) := by
  unfold calledFunction entity visible
  cases chain.resolve? name with
  | none => exact Judged.error.of_iff (by simp) Iff.rfl
  | some e =>
    cases e with
    | var v => exact Judged.error.of_iff (by simp [Entity.role]) Iff.rfl
    | function f =>
      refine Judged.of_iff (Judged.ok ?_) ?_ Iff.rfl
      · rfl
      · simp [Entity.role]

theorem require_judged (condition : Bool) (broken : RuleBreak) (pos : Pos) :
    Judged (require condition broken pos) (condition = true) True (fun _ => True) := by
  unfold require
  split
  · next h => exact (Judged.ok trivial).of_iff (by simp [h]) Iff.rfl
  · next h => exact Judged.error.of_iff (by simp [h]) Iff.rfl

theorem call_judged (f : Function) (args : List Node) (pos : Pos) :
    Judged (call f args pos) (args.length = f.params.length) True (fun n => n.type = .any) := by
  refine Judged.of_iff ((require_judged _ _ _).bind fun _ _ => Judged.ok rfl) ?_ (by simp)
  simp

/-- Without rules on types, an operation only has to be given its type. -/
theorem unary_loose (op : Op) (operand : Node) (pos : Pos) :
    ∃ n, unary false op operand pos = .ok n ∧
      n.type = if op = .not then .boolean else operand.type := by
  unfold unary
  split
  · exact ⟨_, rfl, rfl⟩
  · exact ⟨_, rfl, rfl⟩

theorem binary_loose (op : Op) (left right : Node) (leftPos rightPos : Pos) :
    ∃ n, binary false op left right leftPos rightPos = .ok n ∧
      n.type = op.resultType left.type right.type := by
  unfold binary Op.resultType Op.givesTruth
  split
  · next hlogic => exact ⟨_, rfl, by rw [hlogic]; rfl⟩
  · next hlogic =>
    split
    · next hcompare => exact ⟨_, rfl, by rw [hcompare, Bool.or_true]; rfl⟩
    · next hcompare =>
      rw [Bool.eq_false_iff.mpr hlogic, Bool.eq_false_iff.mpr hcompare]
      exact ⟨_, rfl, rfl⟩

theorem array_loose (elements : List Node) (positions : List Pos) :
    ∃ n, array false elements positions = .ok n ∧
      n.type = .array ((elements.map Node.type).headD .any) := by
  cases elements with
  | nil => exact ⟨_, rfl, rfl⟩
  | cons first rest => exact ⟨_, rfl, rfl⟩

theorem index_loose (a i : Node) (arrayPos indexPos : Pos) :
    ∃ n, index false a i arrayPos indexPos = .ok n ∧
      n.type = match a.type with
        | .array element => element
        | _ => .any := by
  unfold index
  cases a.type with
  | array element => exact ⟨_, rfl, rfl⟩
  | _ => exact ⟨_, rfl, rfl⟩

theorem looseFirst_eq (look : String → Option Role) (es : List Surface.Expr) :
    Surface.looseFirst look es = (es.map (Surface.Expr.looseType look)).headD .any := by
  cases es <;> rfl

/-- A call is resolved if its name stands for a function of as many parameters as there
are arguments. -/
theorem callWith_judged {chain : Chain} {args : List Surface.Expr} (pos : Pos) (callee : String)
    (hargs : Judged (exprs chain args) (Surface.LawfulArgs (visible chain) args) True
      (fun nodes => nodes.map Node.type = args.map (Surface.Expr.looseType (visible chain)))) :
    Judged (do
        let f ← calledFunction chain callee pos
        let nodes ← exprs chain args
        call f nodes pos)
      (visible chain callee = some (.function args.length) ∧
        Surface.LawfulArgs (visible chain) args) True
      (fun n => n.type = .any) := by
  have hcall : ∀ f : Function, visible chain callee = some (.function f.params.length) →
      Judged (do
        let nodes ← exprs chain args
        call f nodes pos)
        (Surface.LawfulArgs (visible chain) args ∧
          visible chain callee = some (.function args.length)) True (fun n => n.type = .any) := by
    intro f hf
    refine hargs.bind_names fun nodes hnodes => (call_judged f nodes pos).of_iff ?_ Iff.rfl
    have hlength : nodes.length = args.length := by
      simpa using congrArg List.length hnodes
    rw [hf, hlength]
    simp [eq_comm]
  refine Judged.of_iff ((calledFunction_judged chain callee pos).bind_names hcall) ?_ Iff.rfl
  constructor
  · rintro ⟨hcallee, hlawful⟩
    exact ⟨⟨_, hcallee⟩, hlawful, hcallee⟩
  · rintro ⟨-, hlawful, hcallee⟩
    exact ⟨hcallee, hlawful⟩

mutual

/-- In a function an expression is resolved if and only if it keeps the rules on names. -/
theorem expr_judged {chain : Chain} (hloose : isStrict chain = false) : ∀ e : Surface.Expr,
    Judged (expr chain e) (e.Lawful (visible chain)) True
      (fun n => n.type = e.looseType (visible chain))
  | .int _ _ | .float _ _ | .bool _ _ | .string _ _ => Judged.ok rfl
  | .var pos name => by
    refine (variableUse_judged chain name pos).bind_ok fun v hv => ?_
    refine ⟨.var v, rfl, ?_⟩
    rw [Surface.Expr.looseType, hv]
    rfl
  | .array _ elements => by
    refine (exprs_judged hloose elements).bind_ok fun nodes hnodes => ?_
    rw [hloose, Surface.Expr.looseType, looseFirst_eq, ← hnodes]
    exact array_loose nodes _
  | .index _ a i => by
    refine (expr_judged hloose a).bind_names fun arrayNode ha => ?_
    refine (expr_judged hloose i).bind_ok fun indexNode _ => ?_
    rw [hloose, Surface.Expr.looseType, ← ha]
    exact index_loose arrayNode indexNode a.pos i.pos
  | .call pos callee args => callWith_judged pos callee (exprs_judged hloose args)
  | .unary pos op operand => by
    refine (expr_judged hloose operand).bind_ok fun n hn => ?_
    rw [hloose, Surface.Expr.looseType, ← hn]
    exact unary_loose op n pos
  | .binary _ op left right => by
    refine (expr_judged hloose left).bind_names fun l hl => ?_
    refine (expr_judged hloose right).bind_ok fun r hr => ?_
    rw [hloose, Surface.Expr.looseType, ← hl, ← hr]
    exact binary_loose op l r left.pos right.pos
  | .conditional _ consequent test alternate => by
    refine (expr_judged hloose consequent).bind_names fun c hc => ?_
    refine (expr_judged hloose test).bind_names fun t _ => ?_
    rw [hloose]
    refine (expr_judged hloose alternate).bind_ok fun a _ => ?_
    exact ⟨_, rfl, hc⟩
  | .stray _ => Judged.error

theorem exprs_judged {chain : Chain} (hloose : isStrict chain = false) :
    ∀ es : List Surface.Expr, Judged (exprs chain es) (Surface.LawfulArgs (visible chain) es) True
      (fun nodes => nodes.map Node.type = es.map (Surface.Expr.looseType (visible chain)))
  | [] => Judged.ok rfl
  | e :: rest => by
    refine (expr_judged hloose e).bind_names fun n hn => ?_
    refine (exprs_judged hloose rest).bind_ok fun others hothers => ?_
    exact ⟨n :: others, rfl, by rw [List.map_cons, List.map_cons, hn, hothers]⟩

end

/-! ## Declarations -/

/-- What is known of names in the surroundings of a statement. -/
def Env.outlook (env : Env) : Outlook :=
  ⟨(env.chain.headD .root).names, visible env.chain, env.inLoop⟩

/-- Surroundings in a function that have the given outlook. -/
def Reaches (env : Env) (o : Outlook) : Prop :=
  env.outlook = o ∧ isStrict env.chain = false

theorem chain_ne_nil {env : Env} (hloose : isStrict env.chain = false) : env.chain ≠ [] := by
  intro hnil
  rw [hnil] at hloose
  cases hloose

theorem outlook_inside (env : Env) (inLoop : Bool) (function? : Option Function) :
    (env.inside inLoop function?).outlook = env.outlook.inside inLoop := rfl

theorem inside_loop_loose {env : Env} (hloose : isStrict env.chain = false) (inLoop : Bool) :
    isStrict (env.inside inLoop none).chain = false := by
  rcases env with ⟨chain, fresh⟩
  cases chain with
  | nil => cases hloose
  | cons top outer => exact hloose

theorem inFunction_of_loose {env : Env} (hloose : isStrict env.chain = false) :
    env.inFunction = true := by
  rcases env with ⟨chain, fresh⟩
  cases chain with
  | nil => cases hloose
  | cons top outer => simpa [isStrict, Scope.strict, Env.inFunction] using hloose

theorem isSome_find?_iff (s : Scope) (name : String) :
    (s.find? name).isSome = true ↔ name ∈ s.names := by
  simp [Scope.find?, Scope.names]

theorem declare_judged {env : Env} (hchain : env.chain ≠ []) (name : String) (e : Entity)
    (pos : Pos) :
    Judged (env.declare name e pos) (name ∉ env.outlook.here) True
      (fun next => next.outlook = env.outlook.declare name e.role ∧
        isStrict next.chain = isStrict env.chain) := by
  rcases env with ⟨chain, fresh⟩
  cases chain with
  | nil => exact absurd rfl hchain
  | cons top outer =>
    have hhere : (top.find? name).isSome = true ↔
        name ∈ (Env.mk (top :: outer) fresh).outlook.here :=
      isSome_find?_iff top name
    by_cases htaken : (top.find? name).isSome = true
    · have hdeclare : (Env.mk (top :: outer) fresh).declare name e pos =
          .error (.rule (.scope (.alreadyDeclared name)) pos) := by
        simp only [Env.declare, Scope.declare?, if_pos htaken]
      rw [hdeclare]
      exact Judged.error.of_iff (by simp [hhere.mp htaken]) Iff.rfl
    · have hdeclare : ∃ next, top.declare? name e = some next ∧
          next = ⟨top.locals ++ [(name, e)], top.inLoop, top.owner?⟩ :=
        ⟨_, if_neg htaken, rfl⟩
      rcases hdeclare with ⟨next, hnext, hlocals⟩
      have hok : (Env.mk (top :: outer) fresh).declare name e pos = .ok ⟨next :: outer, fresh⟩ := by
        simp only [Env.declare, hnext]
      have hvisible : visible (next :: outer) = fun other =>
          if other = name then some e.role else visible (top :: outer) other := by
        funext other
        simp only [visible, Chain.resolve?, List.findSome?_cons, Scope.find?_declare? hnext other]
        by_cases hsame : other = name <;> simp [hsame]
      rw [hok]
      refine Judged.of_iff (Judged.ok ⟨?_, by rw [hlocals]; rfl⟩) (by simp [← hhere, htaken])
        Iff.rfl
      rw [Env.outlook, hvisible, hlocals]
      simp [Env.outlook, Outlook.declare, Scope.names, Env.inLoop]

theorem declareVariable_judged {env : Env} (hloose : isStrict env.chain = false) (name : String)
    (type : Ty) (pos : Pos) :
    Judged (env.declareVariable name type pos) (name ∉ env.outlook.here) True
      (fun r => Reaches r.2 (env.outlook.declare name (.variable type))) := by
  have hchain : (Env.mk env.chain (env.fresh + 1)).chain ≠ [] := chain_ne_nil hloose
  have hdeclared := declare_judged hchain name (.var ⟨env.fresh, name, type⟩) pos
  refine hdeclared.bind_ok fun next hnext => ?_
  exact ⟨_, rfl, hnext.1, hnext.2.trans hloose⟩

/-- The iterator of a loop has a scope of its own, where no name is taken. -/
theorem iterator_judged {env : Env} (hloose : isStrict env.chain = false) (name : String)
    (type : Ty) (pos : Pos) :
    Judged ((env.inside true none).declareVariable name type pos) True True
      (fun r => Reaches r.2 ((env.outlook.inside true).declare name (.variable type))) := by
  have hvariable := declareVariable_judged (inside_loop_loose hloose true) name type pos
  rw [outlook_inside] at hvariable
  exact hvariable.of_iff (by simp [Outlook.inside]) Iff.rfl

theorem declareParams_judged (params : List Surface.Param) (env : Env)
    (hloose : isStrict env.chain = false) (first : Nat) :
    Judged (declareParams env (params.zip (paramVariables first params)))
      (Surface.LawfulParams env.outlook params) True
      (fun next => Reaches next (env.outlook.declareParams params)) := by
  induction params generalizing env first with
  | nil => exact Judged.ok ⟨rfl, hloose⟩
  | cons p rest ih =>
    refine (declare_judged (chain_ne_nil hloose) p.name (.var ⟨first, p.name, .any⟩)
      p.pos).bind_names fun next hnext => ?_
    have hrest := ih next (hnext.2.trans hloose) (first + 1)
    rw [hnext.1] at hrest
    exact hrest

/-! ## Statements -/

theorem test_judged {env : Env} (hloose : isStrict env.chain = false) (e : Surface.Expr) :
    Judged (test env e) (e.Lawful env.outlook.visible) True (fun _ => True) := by
  refine (expr_judged hloose e).bind_ok fun n _ => ?_
  rw [hloose]
  exact ⟨n, rfl, trivial⟩

theorem declaration_judged {env : Env} (hloose : isStrict env.chain = false)
    (b : Surface.Binding) :
    Judged (declaration env b) (b.LawfulDeclare env.outlook) True
      (fun r => Reaches r.2 (b.after env.outlook)) := by
  refine (expr_judged hloose b.value).bind_names fun n hn => ?_
  refine (declareVariable_judged hloose b.name n.type b.pos).bind_ok fun r hr => ?_
  rw [hn] at hr
  exact ⟨_, rfl, hr⟩

theorem assignment_judged {env : Env} (hloose : isStrict env.chain = false)
    (b : Surface.Binding) :
    Judged (assignment env b) (b.LawfulAssign env.outlook) True (fun _ => True) := by
  refine (assignTarget_judged env.chain b.name b.pos).bind_names fun v _ => ?_
  refine (expr_judged hloose b.value).bind_ok fun n _ => ?_
  rw [hloose]
  exact ⟨_, rfl, trivial⟩

/-- What becomes of a function, wherever it is declared, given what becomes of its
body. -/
theorem function_judged {env : Env} (hchain : env.chain ≠ []) (pos : Pos) (name : String)
    (params : List Surface.Param) {body : List Surface.Stmt}
    (hbody : ∀ {inner : Env}, isStrict inner.chain = false →
      Judged (stmts inner body) (Surface.LawfulAll inner.outlook body)
        (Surface.AllLoopsHaveItems inner.outlook body)
        (fun r => Reaches r.2 (Surface.afterAll inner.outlook body))) :
    Judged (stmt env (.function pos name params body))
      ((Surface.Stmt.function pos name params body).Lawful env.outlook)
      ((Surface.Stmt.function pos name params body).LoopsHaveItems env.outlook)
      (fun r => r.2.outlook = env.outlook.declare name (.function params.length) ∧
        isStrict r.2.chain = isStrict env.chain) := by
  have harity : ∀ first, (paramVariables first params).length = params.length := by
    induction params with
    | nil => exact fun _ => rfl
    | cons p rest ih => exact fun first => congrArg (· + 1) (ih (first + 1))
  have hchain' : (Env.mk env.chain (env.fresh + 1 + params.length)).chain ≠ [] := hchain
  refine (declare_judged hchain' name _ pos).bind_names ?_
  rintro next ⟨hlook, hstrict⟩
  rw [Entity.role, harity] at hlook
  have hparams := declareParams_judged params (next.inside false
    (some ⟨env.fresh, name, paramVariables (env.fresh + 1) params⟩)) rfl (env.fresh + 1)
  rw [outlook_inside, hlook] at hparams
  refine hparams.bind_names ?_
  rintro inner ⟨hlook', hinner⟩
  have hstmts := hbody hinner
  rw [hlook'] at hstmts
  refine hstmts.bind_ok ?_
  rintro ⟨nodes, last⟩ -
  exact ⟨_, rfl, hlook, hstrict⟩

mutual

/-- What becomes of a statement in a function. -/
theorem stmt_judged {env : Env} (hloose : isStrict env.chain = false) : ∀ s : Surface.Stmt,
    Judged (stmt env s) (s.Lawful env.outlook) (s.LoopsHaveItems env.outlook)
      (fun r => Reaches r.2 (s.after env.outlook))
  | .print _ value =>
    (expr_judged hloose value).bind_ok fun n _ => ⟨(.print n, env), rfl, rfl, hloose⟩
  | .declare b => declaration_judged hloose b
  | .assign b => (assignment_judged hloose b).bind_ok fun n _ => ⟨(n, env), rfl, rfl, hloose⟩
  | .branch _ e body rest => by
    refine (test_judged hloose e).bind_names fun t _ => ?_
    refine (stmts_judged hloose body).bind ?_
    rintro ⟨nodes, next⟩ ⟨hlook, hnext⟩
    rw [Surface.Stmt.after, ← hlook]
    refine (alternative_judged hnext rest).bind_ok ?_
    rintro ⟨alternate?, last⟩ hlast
    cases alternate? with
    | none => exact ⟨_, rfl, hlast⟩
    | some alternate => exact ⟨_, rfl, hlast⟩
  | .whileLoop _ e body => by
    refine (test_judged hloose e).bind_names fun t _ => ?_
    refine (stmts_judged (inside_loop_loose hloose true) body).bind_ok ?_
    rintro ⟨nodes, inner⟩ -
    exact ⟨_, rfl, rfl, hloose⟩
  | .forLoop _ init e update body => by
    refine (declaration_judged (inside_loop_loose hloose true) init).bind_names ?_
    rintro ⟨d, inner⟩ ⟨hlook, hinner⟩
    rw [Surface.Stmt.LoopsHaveItems, ← outlook_inside env true none, ← hlook]
    refine (test_judged hinner e).bind_names fun t _ => ?_
    refine (assignment_judged hinner update).bind_names fun increment _ => ?_
    refine (stmts_judged hinner body).bind_ok ?_
    rintro ⟨nodes, last⟩ -
    exact ⟨_, rfl, rfl, hloose⟩
  | .forEach pos e name body => by
    refine (expr_judged hloose e).bind_names fun collection hcollection => ?_
    have htype : collection.type = e.looseType env.outlook.visible := hcollection
    rw [Surface.Stmt.LoopsHaveItems, Surface.itemOutlook, ← htype]
    rcases Ty.itemType?_eq collection.type with ⟨hitems, hitem⟩ | ⟨hitems, hitem⟩
    · rw [hitem]
      have hiterator := iterator_judged hloose name collection.type.item pos
      refine Judged.given hitems (hiterator.bind_free ?_)
      rintro ⟨v, inner⟩ ⟨hlook, hinner⟩
      rw [← hlook]
      refine (stmts_judged hinner body).bind_ok ?_
      rintro ⟨nodes, last⟩ -
      exact ⟨_, rfl, rfl, hloose⟩
    · rw [hitem]
      exact Judged.lacks hitems fun h => hitems h.1
  | .function pos name params body => by
    refine (function_judged (chain_ne_nil hloose) pos name params
      fun hinner => stmts_judged hinner body).mono ?_
    rintro r ⟨hlook, hstrict⟩
    exact ⟨hlook, hstrict.trans hloose⟩
  | .exit pos =>
    (require_judged env.inLoop .notInLoop pos).bind_ok fun _ _ => ⟨(.exit, env), rfl, rfl, hloose⟩
  | .ret pos none => by
    rw [stmt, inFunction_of_loose hloose]
    exact Judged.ok ⟨rfl, hloose⟩
  | .ret pos (some e) => by
    rw [stmt, inFunction_of_loose hloose]
    exact (expr_judged hloose e).bind_ok fun n _ => ⟨(.ret n, env), rfl, rfl, hloose⟩
  | .call pos callee args => by
    have hassoc : stmt env (.call pos callee args) = (do
        let f ← calledFunction env.chain callee pos
        let nodes ← exprs env.chain args
        call f nodes pos) >>= fun n => pure (n, env) := by
      simp [stmt]
    rw [hassoc]
    exact (callWith_judged pos callee (exprs_judged hloose args)).bind_ok
      fun n _ => ⟨(n, env), rfl, rfl, hloose⟩
  | .stray _ => Judged.error

/-- What becomes of statements in a function. -/
theorem stmts_judged {env : Env} (hloose : isStrict env.chain = false) : ∀ ss : List Surface.Stmt,
    Judged (stmts env ss) (Surface.LawfulAll env.outlook ss)
      (Surface.AllLoopsHaveItems env.outlook ss)
      (fun r => Reaches r.2 (Surface.afterAll env.outlook ss))
  | [] => Judged.ok ⟨rfl, hloose⟩
  | s :: rest => by
    refine (stmt_judged hloose s).bind ?_
    rintro ⟨n, next⟩ ⟨hlook, hnext⟩
    rw [Surface.afterAll, ← hlook]
    refine (stmts_judged hnext rest).bind_ok ?_
    rintro ⟨others, last⟩ hlast
    exact ⟨_, rfl, hlast⟩

theorem alternative_judged {env : Env} (hloose : isStrict env.chain = false) :
    ∀ rest : Surface.Else,
    Judged (alternative env rest) (rest.Lawful env.outlook) (rest.LoopsHaveItems env.outlook)
      (fun r => Reaches r.2 (rest.after env.outlook))
  | .absent => Judged.ok ⟨rfl, hloose⟩
  | .body body => by
    refine (stmts_judged hloose body).bind_ok ?_
    rintro ⟨nodes, next⟩ hnext
    exact ⟨_, rfl, hnext⟩
  | .branch _ e body rest => by
    refine (test_judged hloose e).bind_names fun t _ => ?_
    refine (stmts_judged hloose body).bind ?_
    rintro ⟨nodes, next⟩ ⟨hlook, hnext⟩
    rw [Surface.Else.after, ← hlook]
    refine (alternative_judged hnext rest).bind_ok ?_
    rintro ⟨alternate?, last⟩ hlast
    cases alternate? with
    | none => exact ⟨_, rfl, hlast⟩
    | some alternate => exact ⟨_, rfl, hlast⟩
  | .stray _ => Judged.error

end

end Resolve

/-! ## Functions -/

/-- Wherever a function is declared, it is accepted if and only if it keeps the rules on
names and control and all its loops have items.  If it keeps those rules and is refused,
then because of a loop over something that has none, and of no other type. -/
theorem function_body_verdict {env : Resolve.Env} (hchain : env.chain ≠ []) (pos : Pos)
    (name : String) (params : List Surface.Param) (body : List Surface.Stmt) :
    let f := Surface.Stmt.function pos name params body
    ((∃ r, Resolve.stmt env f = .ok r) ↔ f.Lawful env.outlook ∧ f.LoopsHaveItems env.outlook) ∧
    (f.Lawful env.outlook → ¬ f.LoopsHaveItems env.outlook →
      ∃ t place, ¬ t.HasItems ∧ Resolve.stmt env f = .error (.rule (.notIterable t) place)) := by
  have hjudged := Resolve.function_judged hchain pos name params
    fun hinner => Resolve.stmts_judged hinner body
  refine ⟨⟨?_, ?_⟩, hjudged.lacking⟩
  · rintro ⟨r, hr⟩
    exact hjudged.only r hr
  · rintro ⟨hlawful, hloops⟩
    rcases hjudged.accepted hlawful hloops with ⟨r, hr, -⟩
    exact ⟨r, hr⟩

/-- A function that negates and subtracts without regard to types, assigns a number to a
truth value and loops over its parameter. -/
def carelessFunction : Surface.Stmt :=
  .function ⟨1, 1⟩ "g" [⟨⟨1, 5⟩, "a"⟩]
    [.declare ⟨⟨1, 8⟩, "x", .unary ⟨1, 19⟩ .not (.string ⟨1, 20⟩ "s")⟩,
      .assign ⟨⟨1, 25⟩, "x", .binary ⟨1, 29⟩ .sub (.bool ⟨1, 29⟩ true) (.array ⟨1, 36⟩ [])⟩,
      .forEach ⟨1, 40⟩ (.var ⟨1, 40⟩ "a") "i" [.exit ⟨1, 50⟩],
      .ret ⟨1, 57⟩ (some (.call ⟨1, 64⟩ "g" [.var ⟨1, 67⟩ "x"]))]

theorem carelessFunction_accepted :
    carelessFunction.Lawful Resolve.Env.initial.outlook ∧
    carelessFunction.LoopsHaveItems Resolve.Env.initial.outlook ∧
    ∃ r, Resolve.stmt .initial carelessFunction = .ok r := by
  have hlawful : carelessFunction.Lawful Resolve.Env.initial.outlook := by
    refine ⟨List.not_mem_nil, ⟨List.not_mem_nil, trivial⟩, ⟨trivial, by decide⟩,
      ⟨⟨.boolean, rfl⟩, trivial, trivial⟩, ⟨⟨.any, rfl⟩, rfl, trivial⟩,
      ⟨rfl, ⟨.boolean, rfl⟩, trivial⟩, trivial⟩
  have hloops : carelessFunction.LoopsHaveItems Resolve.Env.initial.outlook :=
    ⟨trivial, trivial, ⟨.inr (.inr (.inr rfl)), trivial, trivial⟩, trivial, trivial⟩
  have hchain : Resolve.Env.initial.chain ≠ [] := by decide
  exact ⟨hlawful, hloops, ((function_body_verdict hchain _ _ _ _).1).mpr ⟨hlawful, hloops⟩⟩

/-- A function that loops over a truth value. -/
def truthLoop : Surface.Stmt :=
  .function ⟨1, 1⟩ "g" []
    [.forEach ⟨1, 6⟩ (.bool ⟨1, 6⟩ true) "i" [.print ⟨1, 19⟩ (.var ⟨1, 25⟩ "i")]]

/-- A function that keeps all rules on names and control is refused for a type. -/
theorem truthLoop_refused :
    Surface.parse "f g: true.loop i: speak i; stop stop" = .ok ⟨[truthLoop]⟩ ∧
    truthLoop.Lawful Resolve.Env.initial.outlook ∧
    analyze "f g: true.loop i: speak i; stop stop" =
      .error (.refused ⟨.notIterable, "Cannot loop over a boolean", ⟨1, 6⟩⟩) := by
  have hparse : Surface.parse "f g: true.loop i: speak i; stop stop" = .ok ⟨[truthLoop]⟩ := by cbv
  refine ⟨hparse, ⟨List.not_mem_nil, trivial, ⟨trivial, ⟨.boolean, rfl⟩, trivial⟩, trivial⟩, ?_⟩
  rw [analyze_of_parse hparse]
  rfl

end Squishc
