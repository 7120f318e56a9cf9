import Squishc.Proofs.LexicalScope

/-!
# Name resolution

Resolving a program gives every name the meaning that its place in the text
gives it.  At every moment the chain of scopes that the resolver carries along
is a picture of the walk so far.  A fault of the scopes is a fault of the walk:
a use that sees no declaration, or a second declaration in one scope.

Main results:

- Theorem `expr_ends`: an expression gets the entities that its names have in
  the chain.
- Theorem `stmts_ends`: the picture stays true over statements.
- Theorem `resolve_ends`: the picture of a whole program, or the fault that is
  reported.
-/

namespace Squishc

/-! ## Outcomes -/

/-- What is known of an outcome: one thing about its result, or another about its
fault. -/
def Ends {α : Type} (r : Resolved α) (good : α → Prop) (bad : ResolveFault → Prop) : Prop :=
  match r with
  | .ok a => good a
  | .error f => bad f

namespace Ends

variable {α β : Type} {bad : ResolveFault → Prop}

/-- Two steps, one after the other. -/
theorem bind {r : Resolved α} {next : α → Resolved β} {mid : α → Prop} {good : β → Prop}
    (hfirst : Ends r mid bad) (hnext : ∀ a, mid a → Ends (next a) good bad) :
    Ends (r >>= next) good bad := by
  cases r with
  | ok a => exact hnext a hfirst
  | error f => exact hfirst

theorem pure {good : α → Prop} {a : α} (h : good a) : Ends (.ok a) good bad := h

theorem mono {r : Resolved α} {weak good : α → Prop} (h : Ends r weak bad)
    (himp : ∀ a, weak a → good a) : Ends r good bad := by
  cases r with
  | ok a => exact himp a h
  | error f => exact h

theorem ok {r : Resolved α} {good : α → Prop} {a : α} (h : Ends r good bad) (hr : r = .ok a) :
    good a := by
  subst hr
  exact h

theorem error {r : Resolved α} {good : α → Prop} {f : ResolveFault} (h : Ends r good bad)
    (hr : r = .error f) : bad f := by
  subst hr
  exact h

end Ends

/-! ## Faults of a walk -/

/-- What a fault says about the walk of the program.  Faults that do not concern
scopes say nothing. -/
def Shows (events : List (Event Mention)) : ResolveFault → Prop
  | .rule (.scope (.notDeclared name)) pos =>
    ∃ i, events[i]? = some (.use ⟨name, pos⟩) ∧ ∀ scope j, ¬ Sees events i name scope j
  | .rule (.scope (.alreadyDeclared name)) pos =>
    ∃ i j scope, events[i]? = some (.declare ⟨name, pos⟩) ∧ j < i ∧
      Declares events name scope i ∧ Declares events name scope j
  | _ => True

/-- Faults that do not concern scopes are of no interest. -/
def Ignores (bad : ResolveFault → Prop) : Prop :=
  ∀ f, (∀ fault pos, f ≠ .rule (.scope fault) pos) → bad f

theorem ignores_shows (events : List (Event Mention)) : Ignores (Shows events) := by
  intro f hf
  unfold Shows
  split
  · exact absurd rfl (hf _ _)
  · exact absurd rfl (hf _ _)
  · trivial

section Faults

variable {events full : List (Event Mention)} {typed : List (Event Entity)} {bound : Nat}

/-- A name that the chain does not resolve is used without a declaration. -/
theorem Tracks.shows_notDeclared {chain : Chain} (h : Tracks events typed chain bound)
    {ms : List Mention} (hfull : events ++ ms.map .use <+: full) {m : Mention} (hm : m ∈ ms)
    (hnone : chain.resolve? m.name = none) :
    Shows full (.rule (.scope (.notDeclared m.name)) m.pos) := by
  rcases List.append_of_mem hm with ⟨before, after, rfl⟩
  rcases hfull with ⟨rest, rfl⟩
  have hsplit : events ++ (before ++ m :: after).map Event.use ++ rest =
      (events ++ before.map .use) ++ (.use m :: (after.map .use ++ rest)) := by simp
  rw [hsplit]
  refine ⟨(events ++ before.map Event.use).length, by simp, ?_⟩
  intro number j hsees
  rw [sees_append (Nat.le_refl _)] at hsees
  rcases hsees with ⟨hopen, -, hj⟩
  rw [List.take_length, openScopes_append_uses] at hopen
  rw [declares_append_uses] at hj
  exact h.not_declares hnone hopen j hj

/-- A name that is taken in the innermost scope is declared twice in it. -/
theorem Tracks.shows_alreadyDeclared {top : Scope} {outer : Chain}
    (h : Tracks events typed (top :: outer) bound) {m : Mention} {e : Entity}
    (hfull : events ++ [.declare m] <+: full) (hnone : top.declare? m.name e = none) :
    Shows full (.rule (.scope (.alreadyDeclared m.name)) m.pos) := by
  have htaken : (top.find? m.name).isSome := by
    unfold Scope.declare? at hnone
    split at hnone
    · assumption
    · cases hnone
  rcases hfull with ⟨rest, rfl⟩
  have hscopes := h.scopes
  cases hopen : openScopes events with
  | nil => simp [hopen] at hscopes
  | cons inner others =>
    rw [hopen] at hscopes
    rcases List.forall₂_cons.mp hscopes with ⟨hmirror, -⟩
    rcases (hmirror.find?_isSome_iff h.parallel m.name).mp htaken with ⟨j, hj⟩
    refine ⟨events.length, j, inner, by simp, hj.lt_length, ?_, ?_⟩
    · rw [declares_append (by simp), declares_append_singleton]
      exact .inr ⟨rfl, ⟨m.pos, rfl⟩, by rw [hopen, List.head?_cons]⟩
    · have hlt := hj.lt_length
      rw [declares_append (by simp; omega), declares_append_singleton]
      exact .inl hj

end Faults

/-! ## Expressions -/

namespace Resolve

section Expressions

variable {chain : Chain} {bad : ResolveFault → Prop}

theorem require_ends (hbad : Ignores bad) {condition : Bool} {broken : RuleBreak} {pos : Pos}
    (hbroken : ∀ fault, broken ≠ .scope fault) :
    Ends (require condition broken pos) (fun _ => condition = true) bad := by
  unfold require
  split
  · assumption
  · refine hbad _ ?_
    intro fault pos' hsame
    cases hsame
    exact hbroken fault rfl

theorem checkBoolean_ends (hbad : Ignores bad) (strict : Bool) (n : Node) (pos : Pos) :
    Ends (checkBoolean strict n pos) (fun _ => True) bad :=
  (require_ends hbad (by simp)).mono fun _ _ => trivial

theorem checkOperands_ends (hbad : Ignores bad) (left right : Node) (pos : Pos) :
    Ends (checkOperands left right pos) (fun _ => True) bad :=
  (require_ends hbad (by simp)).mono fun _ _ => trivial

theorem checkArithmetic_ends (hbad : Ignores bad) (op : Op) (left right : Node)
    (leftPos rightPos : Pos) :
    Ends (checkArithmetic op left right leftPos rightPos) (fun _ => True) bad := by
  unfold checkArithmetic
  split
  · exact (require_ends hbad (by simp)).bind fun _ _ => checkOperands_ends hbad _ _ _
  · refine (require_ends hbad (by simp)).bind fun _ _ => ?_
    exact (require_ends hbad (by simp)).bind fun _ _ => checkOperands_ends hbad _ _ _

theorem unary_ends (hbad : Ignores bad) (strict : Bool) (op : Op) (operand : Node) (pos : Pos) :
    Ends (unary strict op operand pos) (fun n => ∃ op type, n = .unary op operand type) bad := by
  unfold unary
  split
  · exact (checkBoolean_ends hbad _ _ _).bind fun _ _ => ⟨_, _, rfl⟩
  · exact (require_ends hbad (by simp)).bind fun _ _ => ⟨_, _, rfl⟩

theorem binary_ends (hbad : Ignores bad) (strict : Bool) (op : Op) (left right : Node)
    (leftPos rightPos : Pos) :
    Ends (binary strict op left right leftPos rightPos)
      (fun n => ∃ type, n = .binary op left right type) bad := by
  unfold binary
  split
  · refine (checkBoolean_ends hbad _ _ _).bind fun _ _ => ?_
    exact (checkBoolean_ends hbad _ _ _).bind fun _ _ => ⟨_, rfl⟩
  · split
    · split
      · exact (checkOperands_ends hbad _ _ _).bind fun _ _ => ⟨_, rfl⟩
      · exact ⟨_, rfl⟩
    · split
      · exact (checkArithmetic_ends hbad _ _ _ _ _).bind fun _ _ => ⟨_, rfl⟩
      · exact ⟨_, rfl⟩

theorem checkElements_ends (hbad : Ignores bad) (first : Ty) (elements : List (Node × Pos)) :
    Ends (checkElements first elements) (fun _ => True) bad := by
  induction elements with
  | nil => trivial
  | cons element rest ih => exact (require_ends hbad (by simp)).bind fun _ _ => ih

theorem array_ends (hbad : Ignores bad) (strict : Bool) (elements : List Node)
    (positions : List Pos) :
    Ends (array strict elements positions) (fun n => ∃ type, n = .array elements type) bad := by
  unfold array
  split
  · exact ⟨_, rfl⟩
  · split
    · exact (checkElements_ends hbad _ _).bind fun _ _ => ⟨_, rfl⟩
    · exact ⟨_, rfl⟩

theorem index_ends (hbad : Ignores bad) (strict : Bool) (a i : Node) (arrayPos indexPos : Pos) :
    Ends (index strict a i arrayPos indexPos) (fun n => ∃ type, n = .index a i type) bad := by
  unfold index
  split
  · refine (require_ends hbad (by simp)).bind fun _ _ => ?_
    split
    · exact ⟨_, rfl⟩
    · exact ⟨_, rfl⟩
    · exact ⟨_, rfl⟩
    · exact hbad _ (by simp)
  · split
    · exact ⟨_, rfl⟩
    · exact ⟨_, rfl⟩

theorem call_ends (hbad : Ignores bad) (f : Function) (args : List Node) (pos : Pos) :
    Ends (call f args pos)
      (fun n => n = .call f args .any ∧ args.length = f.params.length) bad := by
  refine (require_ends hbad (by simp)).bind fun _ hlength => ?_
  exact ⟨rfl, by simpa using hlength⟩

/-- The fault of a name that the chain does not resolve. -/
def notDeclared (m : Mention) : ResolveFault := .rule (.scope (.notDeclared m.name)) m.pos

/-- A chain gives names their entities. -/
def Gives (chain : Chain) (ms : List Mention) (es : List Entity) : Prop :=
  List.Forall₂ (fun m e => chain.resolve? m.name = some e) ms es

/-- Every name that a chain does not resolve makes for a bad fault. -/
def Misses (chain : Chain) (bad : ResolveFault → Prop) (ms : List Mention) : Prop :=
  ∀ m ∈ ms, chain.resolve? m.name = none → bad (notDeclared m)

theorem Gives.append {ms ns : List Mention} {es fs : List Entity} (h : Gives chain ms es)
    (h' : Gives chain ns fs) : Gives chain (ms ++ ns) (es ++ fs) :=
  List.rel_append h h'

theorem Misses.left {ms ns : List Mention} (h : Misses chain bad (ms ++ ns)) :
    Misses chain bad ms := fun m hm => h m (List.mem_append_left ns hm)

theorem Misses.right {ms ns : List Mention} (h : Misses chain bad (ms ++ ns)) :
    Misses chain bad ns := fun m hm => h m (List.mem_append_right ms hm)

theorem Misses.head {m : Mention} {ms : List Mention} (h : Misses chain bad (m :: ms)) :
    Misses chain bad [m] := fun _ hm => h _ (List.mem_cons.mpr (.inl (List.mem_singleton.mp hm)))

theorem Misses.tail {m : Mention} {ms : List Mention} (h : Misses chain bad (m :: ms)) :
    Misses chain bad ms := fun _ hm => h _ (List.mem_cons_of_mem m hm)

theorem entity_ends {m : Mention} (hmiss : Misses chain bad [m]) :
    Ends (entity chain m.name m.pos) (fun e => Gives chain [m] [e]) bad := by
  unfold entity
  split
  · exact .cons ‹_› .nil
  · exact hmiss m List.mem_cons_self ‹_›

theorem variableUse_ends (hbad : Ignores bad) {m : Mention} (hmiss : Misses chain bad [m]) :
    Ends (variableUse chain m.name m.pos) (fun v => Gives chain [m] [.var v]) bad := by
  refine (entity_ends hmiss).bind fun e he => ?_
  cases e with
  | var v => exact he
  | function f => exact hbad _ (by simp)

theorem assignTarget_ends (hbad : Ignores bad) {m : Mention} (hmiss : Misses chain bad [m]) :
    Ends (assignTarget chain m.name m.pos) (fun v => Gives chain [m] [.var v]) bad := by
  refine (entity_ends hmiss).bind fun e he => ?_
  cases e with
  | var v => exact he
  | function f => exact hbad _ (by simp)

theorem calledFunction_ends (hbad : Ignores bad) {m : Mention} (hmiss : Misses chain bad [m]) :
    Ends (calledFunction chain m.name m.pos) (fun f => Gives chain [m] [.function f]) bad := by
  refine (entity_ends hmiss).bind fun e he => ?_
  cases e with
  | var v => exact hbad _ (by simp)
  | function f => exact he

mutual

/-- The result of an expression is an expression, and its names get the entities
that they have in the chain. -/
theorem expr_ends (hbad : Ignores bad) : ∀ (e : Surface.Expr), Misses chain bad e.mentions →
    Ends (expr chain e) (fun n => n.isExpr = true ∧ Gives chain e.mentions n.mentioned) bad
  | .int _ _, _ => ⟨rfl, .nil⟩
  | .float _ _, _ => ⟨rfl, .nil⟩
  | .bool _ _, _ => ⟨rfl, .nil⟩
  | .string _ _, _ => ⟨rfl, .nil⟩
  | .var pos name, hmiss =>
    (variableUse_ends hbad (m := ⟨name, pos⟩) hmiss).bind fun _ hv => ⟨rfl, hv⟩
  | .array _ elements, hmiss => by
    refine (exprs_ends hbad elements hmiss).bind fun nodes hnodes => ?_
    refine (array_ends hbad _ _ _).mono ?_
    rintro n ⟨type, rfl⟩
    exact hnodes
  | .index _ a i, hmiss => by
    refine (expr_ends hbad a hmiss.left).bind fun arrayNode harray => ?_
    refine (expr_ends hbad i hmiss.right).bind fun indexNode hindex => ?_
    refine (index_ends hbad _ _ _ _ _).mono ?_
    rintro n ⟨type, rfl⟩
    exact ⟨by simp [Node.isExpr, harray.1, hindex.1], harray.2.append hindex.2⟩
  | .call pos callee args, hmiss => by
    refine (calledFunction_ends hbad (m := ⟨callee, pos⟩) hmiss.head).bind fun f hf => ?_
    refine (exprs_ends hbad args hmiss.tail).bind fun nodes hnodes => ?_
    refine (call_ends hbad _ _ _).mono ?_
    rintro n ⟨rfl, -⟩
    exact ⟨hnodes.1, hf.append hnodes.2⟩
  | .unary _ _ operand, hmiss => by
    refine (expr_ends hbad operand hmiss).bind fun m hm => ?_
    refine (unary_ends hbad _ _ _ _).mono ?_
    rintro n ⟨op, type, rfl⟩
    exact hm
  | .binary _ _ left right, hmiss => by
    refine (expr_ends hbad left hmiss.left).bind fun l hl => ?_
    refine (expr_ends hbad right hmiss.right).bind fun r hr => ?_
    refine (binary_ends hbad _ _ _ _ _ _).mono ?_
    rintro n ⟨type, rfl⟩
    exact ⟨by simp [Node.isExpr, hl.1, hr.1], hl.2.append hr.2⟩
  | .conditional _ consequent test alternate, hmiss => by
    refine (expr_ends hbad consequent hmiss.left).bind fun c hc => ?_
    refine (expr_ends hbad test hmiss.right.left).bind fun t ht => ?_
    refine (checkBoolean_ends hbad _ _ _).bind fun _ _ => ?_
    refine (expr_ends hbad alternate hmiss.right.right).bind fun a ha => ?_
    exact ⟨by simp [Node.isExpr, hc.1, ht.1, ha.1], hc.2.append (ht.2.append ha.2)⟩
  | .stray _, _ => hbad _ (by simp)

theorem exprs_ends (hbad : Ignores bad) : ∀ (es : List Surface.Expr),
    Misses chain bad (Surface.mentionsAll es) →
    Ends (exprs chain es) (fun ns => Node.allExpr ns = true ∧
      Gives chain (Surface.mentionsAll es) (Node.mentionedAll ns)) bad
  | [], _ => ⟨rfl, .nil⟩
  | e :: rest, hmiss => by
    refine (expr_ends hbad e hmiss.left).bind fun n hn => ?_
    refine (exprs_ends hbad rest hmiss.right).bind fun ns hns => ?_
    exact ⟨by simp [Node.allExpr, hn.1, hns.1], hn.2.append hns.2⟩

end

end Expressions

/-! ## Statements -/

section Statements

variable {events full : List (Event Mention)} {typed : List (Event Entity)} {outer : Chain}
  {env : Env}

theorem prefix_left {α : Type} {as bs cs whole : List α} (h : as ++ (bs ++ cs) <+: whole) :
    as ++ bs <+: whole := by
  rw [← List.append_assoc] at h
  exact (List.prefix_append _ _).trans h

theorem prefix_right {α : Type} {as bs cs whole : List α} (h : as ++ (bs ++ cs) <+: whole) :
    (as ++ bs) ++ cs <+: whole := by
  rwa [List.append_assoc]

/-- The surroundings are a picture of the walk, in a scope directly inside some
others. -/
structure Stands (events : List (Event Mention)) (typed : List (Event Entity)) (outer : Chain)
    (env : Env) : Prop where
  tracks : Tracks events typed env.chain env.fresh
  within : ∃ top, env.chain = top :: outer

theorem Stands.enter (h : Stands events typed outer env) (inLoop : Bool)
    (function? : Option Function) :
    Stands (events ++ [.enter]) (typed ++ [.enter]) env.chain (env.inside inLoop function?) :=
  ⟨h.tracks.enter rfl, _, rfl⟩

/-- Behind a scope the surroundings are those from before, apart from the numbers
that it took. -/
theorem Stands.leave {inner : Env} (hinner : Stands events typed env.chain inner)
    (hwithin : ∃ top, env.chain = top :: outer) :
    Stands (events ++ [.leave]) (typed ++ [.leave]) outer (env.leave inner) := by
  refine ⟨?_, hwithin⟩
  rcases hinner.within with ⟨top, htop⟩
  have hleave := hinner.tracks.leave
  rwa [htop] at hleave

theorem Stands.misses (h : Stands events typed outer env) {ms : List Mention}
    (hfull : events ++ ms.map .use <+: full) : Misses env.chain (Shows full) ms :=
  fun _ hm hnone => h.tracks.shows_notDeclared hfull hm hnone

theorem Stands.uses (h : Stands events typed outer env) {ms : List Mention} {es : List Entity}
    (hgives : Gives env.chain ms es) :
    Stands (events ++ ms.map .use) (typed ++ es.map .use) outer env :=
  ⟨h.tracks.uses hgives, h.within⟩

/-- Declaring the entity with the next number keeps the picture true. -/
theorem declare_ends {chain : Chain} {fresh : Nat} {m : Mention} {e : Entity}
    (h : Tracks events typed chain e.id) (hwithin : ∃ top, chain = top :: outer)
    (hname : e.name = m.name) (hfull : events ++ [.declare m] <+: full) :
    Ends ((Env.mk chain fresh).declare m.name e m.pos)
      (fun env => Tracks (events ++ [.declare m]) (typed ++ [.declare e]) env.chain (e.id + 1) ∧
        (∃ top, env.chain = top :: outer) ∧ env.fresh = fresh) (Shows full) := by
  rcases hwithin with ⟨top, rfl⟩
  unfold Env.declare
  dsimp only
  cases hnext : top.declare? m.name e with
  | none => exact h.shows_alreadyDeclared hfull hnext
  | some next => exact ⟨h.declare hnext hname rfl, ⟨next, rfl⟩, rfl⟩

theorem declareVariable_ends (h : Stands events typed outer env) {m : Mention} (type : Ty)
    (hfull : events ++ [.declare m] <+: full) :
    Ends (env.declareVariable m.name type m.pos)
      (fun r => Stands (events ++ [.declare m]) (typed ++ [.declare (.var r.1)]) outer r.2)
      (Shows full) := by
  refine (declare_ends (e := .var ⟨env.fresh, m.name, type⟩) h.tracks h.within rfl hfull).bind ?_
  rintro next ⟨htracks, hwithin, hfresh⟩
  refine ⟨?_, hwithin⟩
  rw [hfresh]
  exact htracks

theorem declaration_ends (h : Stands events typed outer env) (b : Surface.Binding)
    (hfull : events ++ b.walkDeclare <+: full) :
    Ends (declaration env b)
      (fun r => Stands (events ++ b.walkDeclare) (typed ++ r.1.walk) outer r.2) (Shows full) := by
  have hvalue := h.misses (prefix_left hfull)
  refine (expr_ends (ignores_shows full) b.value hvalue).bind fun n hn => ?_
  have hused := h.uses hn.2
  refine (declareVariable_ends hused n.type (m := ⟨b.name, b.pos⟩) (prefix_right hfull)).bind ?_
  rintro ⟨v, next⟩ hnext
  refine Ends.pure ?_
  simpa [Surface.Binding.walkDeclare, Surface.Expr.walk, Node.walk] using hnext

theorem assignment_ends (h : Stands events typed outer env) (b : Surface.Binding)
    (hfull : events ++ b.walkAssign <+: full) :
    Ends (assignment env b)
      (fun n => Stands (events ++ b.walkAssign) (typed ++ n.walk) outer env) (Shows full) := by
  have hbad := ignores_shows full
  have hmiss : Misses env.chain (Shows full) (⟨b.name, b.pos⟩ :: b.value.mentions) :=
    h.misses hfull
  refine (assignTarget_ends hbad (m := ⟨b.name, b.pos⟩) hmiss.head).bind fun v hv => ?_
  refine (expr_ends hbad b.value hmiss.tail).bind fun n hn => ?_
  refine (require_ends hbad (by simp)).bind fun _ _ => ?_
  exact Ends.pure (h.uses (hv.append hn.2))

theorem test_ends (h : Stands events typed outer env) (e : Surface.Expr)
    (hfull : events ++ e.walk <+: full) :
    Ends (test env e)
      (fun n => Stands (events ++ e.walk) (typed ++ n.mentioned.map .use) outer env)
      (Shows full) := by
  have hbad := ignores_shows full
  refine (expr_ends hbad e (h.misses hfull)).bind fun n hn => ?_
  refine (checkBoolean_ends hbad _ _ _).bind fun _ _ => ?_
  exact Ends.pure (h.uses hn.2)

/-- Declaring the parameters of a function keeps the picture true.  Their numbers
were taken together with that of the function. -/
theorem declareParams_ends (params : List Surface.Param) {first : Nat}
    (h : Tracks events typed env.chain first) (hwithin : ∃ top, env.chain = top :: outer)
    (hfresh : env.fresh = first + params.length)
    (hfull : events ++ Surface.walkParams params <+: full) :
    Ends (declareParams env (params.zip (paramVariables first params)))
      (Stands (events ++ Surface.walkParams params)
        (typed ++ (paramVariables first params).map (fun v => .declare (.var v))) outer)
      (Shows full) := by
  induction params generalizing events typed env first with
  | nil =>
    rw [List.length_nil, Nat.add_zero] at hfresh
    refine Ends.pure ⟨?_, hwithin⟩
    simpa [Surface.walkParams, paramVariables, hfresh] using h
  | cons p rest ih =>
    have hfirst : events ++ [.declare ⟨p.name, p.pos⟩] <+: full := prefix_left hfull
    refine (declare_ends (m := ⟨p.name, p.pos⟩) (e := .var ⟨first, p.name, .any⟩) h hwithin rfl
      hfirst).bind ?_
    rintro next ⟨htracks, hnext, hsame⟩
    have hrest : next.fresh = first + 1 + rest.length := by
      rw [hsame, hfresh, List.length_cons]
      omega
    refine (ih htracks hnext hrest (prefix_right hfull)).mono fun last hlast => ?_
    simpa [Surface.walkParams, paramVariables, Entity.id] using hlast

end Statements

mutual

/-- A statement keeps the picture true. -/
theorem stmt_ends {events full : List (Event Mention)} {typed : List (Event Entity)}
    {outer : Chain} {env : Env} (h : Stands events typed outer env) :
    ∀ (s : Surface.Stmt), events ++ s.walk <+: full →
      Ends (stmt env s) (fun r => Stands (events ++ s.walk) (typed ++ r.1.walk) outer r.2)
        (Shows full)
  | .print _ value, hfull => by
    refine (expr_ends (ignores_shows full) value (h.misses hfull)).bind fun n hn => ?_
    exact Ends.pure (h.uses hn.2)
  | .declare b, hfull => declaration_ends h b hfull
  | .assign b, hfull => (assignment_ends h b hfull).bind fun _ hn => hn
  | .branch _ e body rest, hfull => by
    simp only [Surface.Stmt.walk] at hfull ⊢
    refine (test_ends h e (prefix_left hfull)).bind fun t ht => ?_
    have hfull := prefix_right hfull
    refine (stmts_ends ht body (prefix_left hfull)).bind ?_
    rintro ⟨nodes, next⟩ hnext
    refine (alternative_ends hnext rest (prefix_right hfull)).bind ?_
    rintro ⟨alternate?, last⟩ hlast
    cases alternate? with
    | none => exact Ends.pure (by simpa [Node.walk] using hlast)
    | some alternate => exact Ends.pure (by simpa [Node.walk] using hlast)
  | .whileLoop _ e body, hfull => by
    simp only [Surface.Stmt.walk] at hfull ⊢
    refine (test_ends h e (prefix_left hfull)).bind fun t ht => ?_
    have hbody : (events ++ e.walk ++ [.enter]) ++ (Surface.walkAll body ++ [.leave]) <+: full := by
      simpa using hfull
    refine (stmts_ends (ht.enter true none) body (prefix_left hbody)).bind ?_
    rintro ⟨nodes, inner⟩ hinner
    exact Ends.pure (by simpa [Node.walk] using hinner.leave h.within)
  | .forLoop _ init e update body, hfull => by
    simp only [Surface.Stmt.walk] at hfull ⊢
    have hinit : (events ++ [.enter]) ++ (init.walkDeclare ++ (e.walk ++ (update.walkAssign ++
        (Surface.walkAll body ++ [.leave])))) <+: full := by
      simpa using hfull
    refine (declaration_ends (h.enter true none) init (prefix_left hinit)).bind ?_
    rintro ⟨d, inner⟩ hd
    have htest := prefix_right hinit
    refine (test_ends hd e (prefix_left htest)).bind fun t ht => ?_
    have hupdate := prefix_right htest
    refine (assignment_ends ht update (prefix_left hupdate)).bind fun increment hincrement => ?_
    have hbody := prefix_right hupdate
    refine (stmts_ends hincrement body (prefix_left hbody)).bind ?_
    rintro ⟨nodes, last⟩ hlast
    exact Ends.pure (by simpa [Node.walk] using hlast.leave h.within)
  | .forEach pos e name body, hfull => by
    simp only [Surface.Stmt.walk] at hfull ⊢
    have hbad := ignores_shows full
    refine (expr_ends hbad e (h.misses (prefix_left hfull))).bind fun collection hcollection => ?_
    cases itemType? collection.type with
    | none => exact hbad (.rule (.notIterable collection.type) e.pos) (by simp)
    | some item =>
      have hin := (h.uses hcollection.2).enter true none
      have hname : (events ++ e.walk ++ [.enter]) ++ ([.declare ⟨name, pos⟩] ++
          (Surface.walkAll body ++ [.leave])) <+: full := by
        simpa using hfull
      refine (declareVariable_ends hin item (m := ⟨name, pos⟩) (prefix_left hname)).bind ?_
      rintro ⟨v, inner⟩ hv
      have hbody := prefix_right hname
      refine (stmts_ends hv body (prefix_left hbody)).bind ?_
      rintro ⟨nodes, last⟩ hlast
      refine Ends.pure ?_
      simpa [Node.walk, Surface.Expr.walk] using hlast.leave h.within
  | .function pos name params body, hfull => by
    simp only [Surface.Stmt.walk] at hfull ⊢
    have hname : events ++ ([.declare ⟨name, pos⟩] ++ (.enter :: (Surface.walkParams params ++
        (Surface.walkAll body ++ [.leave])))) <+: full := hfull
    refine (declare_ends (m := ⟨name, pos⟩) (e := .function
      ⟨env.fresh, name, paramVariables (env.fresh + 1) params⟩) h.tracks h.within rfl
      (prefix_left hname)).bind ?_
    rintro next ⟨htracks, hnext, hfresh⟩
    have hparams : (events ++ [.declare ⟨name, pos⟩] ++ [.enter]) ++ (Surface.walkParams params ++
        (Surface.walkAll body ++ [.leave])) <+: full := by
      simpa using hfull
    refine Ends.bind (declareParams_ends params (htracks.enter rfl) ⟨_, rfl⟩ hfresh
      (prefix_left hparams)) fun inner hinner => ?_
    have hbody := prefix_right hparams
    refine (stmts_ends hinner body (prefix_left hbody)).bind ?_
    rintro ⟨nodes, last⟩ hlast
    exact Ends.pure (by simpa [Node.walk] using hlast.leave hnext)
  | .exit pos, _ => by
    refine (require_ends (ignores_shows full) (by simp)).bind fun _ _ => ?_
    exact Ends.pure (by simpa [Surface.Stmt.walk, Node.walk] using h)
  | .ret pos none, _ => by
    refine (require_ends (ignores_shows full) (by simp)).bind fun _ _ => ?_
    exact Ends.pure (by simpa [Surface.Stmt.walk, Node.walk] using h)
  | .ret pos (some e), hfull => by
    have hbad := ignores_shows full
    refine (require_ends hbad (by simp)).bind fun _ _ => ?_
    refine (expr_ends hbad e (h.misses hfull)).bind fun n hn => ?_
    exact Ends.pure (h.uses hn.2)
  | .call pos callee args, hfull => by
    have hbad := ignores_shows full
    have hmiss : Misses env.chain (Shows full) (⟨callee, pos⟩ :: Surface.mentionsAll args) :=
      h.misses hfull
    refine (calledFunction_ends hbad (m := ⟨callee, pos⟩) hmiss.head).bind fun f hf => ?_
    refine (exprs_ends hbad args hmiss.tail).bind fun nodes hnodes => ?_
    refine (call_ends hbad f nodes pos).bind ?_
    rintro n ⟨rfl, -⟩
    exact Ends.pure (h.uses (hf.append hnodes.2))
  | .stray kind, _ => ignores_shows full (.strayStatement kind) (by simp)

theorem stmts_ends {events full : List (Event Mention)} {typed : List (Event Entity)}
    {outer : Chain} {env : Env} (h : Stands events typed outer env) :
    ∀ (ss : List Surface.Stmt), events ++ Surface.walkAll ss <+: full →
      Ends (stmts env ss)
        (fun r => Stands (events ++ Surface.walkAll ss) (typed ++ Node.walkAll r.1) outer r.2)
        (Shows full)
  | [], _ => Ends.pure (by simpa [Surface.walkAll, Node.walkAll] using h)
  | s :: rest, hfull => by
    simp only [Surface.walkAll] at hfull ⊢
    refine (stmt_ends h s (prefix_left hfull)).bind ?_
    rintro ⟨n, next⟩ hnext
    refine (stmts_ends hnext rest (prefix_right hfull)).bind ?_
    rintro ⟨others, last⟩ hlast
    exact Ends.pure (by simpa [Node.walkAll] using hlast)

theorem alternative_ends {events full : List (Event Mention)} {typed : List (Event Entity)}
    {outer : Chain} {env : Env} (h : Stands events typed outer env) :
    ∀ (rest : Surface.Else), events ++ rest.walk <+: full →
      Ends (alternative env rest)
        (fun r => Stands (events ++ rest.walk) (typed ++ (r.1.map Node.walk).getD []) outer r.2)
        (Shows full)
  | .absent, _ => Ends.pure (by simpa [Surface.Else.walk] using h)
  | .body body, hfull => by
    refine (stmts_ends h body hfull).bind ?_
    rintro ⟨nodes, next⟩ hnext
    exact Ends.pure (by simpa [Surface.Else.walk, Node.walk] using hnext)
  | .branch _ e body rest, hfull => by
    simp only [Surface.Else.walk] at hfull ⊢
    refine (test_ends h e (prefix_left hfull)).bind fun t ht => ?_
    have hfull := prefix_right hfull
    refine (stmts_ends ht body (prefix_left hfull)).bind ?_
    rintro ⟨nodes, next⟩ hnext
    refine (alternative_ends hnext rest (prefix_right hfull)).bind ?_
    rintro ⟨alternate?, last⟩ hlast
    cases alternate? with
    | none => exact Ends.pure (by simpa [Node.walk] using hlast)
    | some alternate => exact Ends.pure (by simpa [Node.walk] using hlast)
  | .stray kind, _ => ignores_shows full (.strayBlock kind) (by simp)

end

end Resolve

/-! ## Programs -/

/-- A typed walk gives the names of a walk their lexical meaning. -/
structure LexicallyResolved (events : List (Event Mention)) (typed : List (Event Entity)) :
    Prop where
  /-- The typed walk meets the same names in the same way. -/
  parallel : Parallel events typed
  /-- A use refers to a declaration and has the entity that was created there. -/
  bound : ∀ (i : Nat) (m : Mention), events[i]? = some (.use m) →
    ∃ j e, Binds events i j ∧ typed[j]? = some (.declare e) ∧ typed[i]? = some (.use e)
  /-- Two uses have the same entity exactly when they refer to the same
  declaration. -/
  same : ∀ i i' j j' e e', Binds events i j → Binds events i' j' →
    typed[i]? = some (.use e) → typed[i']? = some (.use e') → (e = e' ↔ j = j')
  /-- No scope declares a name twice. -/
  once : ∀ name scope j j', Declares events name scope j → Declares events name scope j' → j = j'

/-- What a use refers to is determined, as long as no scope declares a name
twice. -/
theorem Binds.unique {events : List (Event Mention)}
    (honce : ∀ name scope j k, Declares events name scope j → Declares events name scope k → j = k)
    {i j k : Nat} (hj : Binds events i j) (hk : Binds events i k) : j = k := by
  rcases hj with ⟨name, scope, ⟨pos, hat⟩, hsees, hinner⟩
  rcases hk with ⟨name', scope', ⟨pos', hat'⟩, hsees', hinner'⟩
  rw [hat] at hat'
  cases hat'
  have hscope : scope = scope' := Nat.le_antisymm (hinner' _ _ hsees) (hinner _ _ hsees')
  subst hscope
  exact honce name scope j k hsees.2.2 hsees'.2.2

theorem Tracks.lexicallyResolved {events : List (Event Mention)} {typed : List (Event Entity)}
    {chain : Chain} {bound : Nat} (h : Tracks events typed chain bound) :
    LexicallyResolved events typed where
  parallel := h.parallel
  bound := h.used
  once := h.once
  same := by
    -- The entity of a use is the one declared where the use refers to.
    have hentity : ∀ {i j : Nat} {e : Entity}, Binds events i j → typed[i]? = some (.use e) →
        typed[j]? = some (.declare e) := by
      intro i j e hbinds hat
      rcases hbinds with ⟨name, scope, ⟨pos, huse⟩, hrest⟩
      rcases h.used i ⟨name, pos⟩ huse with ⟨k, e', hk, hdeclare, hat'⟩
      rw [hat] at hat'
      cases hat'
      rwa [Binds.unique h.once ⟨name, scope, ⟨pos, huse⟩, hrest⟩ hk]
    intro i i' j j' e e' hj hj' hat hat'
    have hdeclare := hentity hj hat
    have hdeclare' := hentity hj' hat'
    constructor
    · rintro rfl
      exact h.distinct j j' e hdeclare hdeclare'
    · rintro rfl
      rw [hdeclare] at hdeclare'
      cases hdeclare'
      rfl

/-- Resolving a program keeps the picture of its walk true to its end. -/
theorem resolve_ends (p : Surface.Program) :
    Ends (resolve p) (fun t => ∃ fresh, Tracks p.walk t.walk [] fresh) (Shows p.walk) := by
  have hroot : Resolve.Stands [.enter] [.enter] [] .initial :=
    ⟨tracks_nil.enter rfl, _, rfl⟩
  refine (Resolve.stmts_ends hroot p.statements (List.prefix_append _ [.leave])).bind ?_
  rintro ⟨nodes, env⟩ henv
  refine Ends.pure ⟨env.fresh, ?_⟩
  rw [Node.walk]
  rcases henv.within with ⟨top, htop⟩
  have hleave := henv.tracks.leave
  rwa [htop] at hleave

theorem RuleBreak.eq_notDeclared {broken : RuleBreak} (h : broken.category = .notDeclared) :
    ∃ name, broken = .scope (.notDeclared name) := by
  cases broken with
  | scope fault =>
    cases fault with
    | notDeclared name => exact ⟨name, rfl⟩
    | alreadyDeclared name => cases h
  | _ => cases h

theorem RuleBreak.eq_alreadyDeclared {broken : RuleBreak}
    (h : broken.category = .alreadyDeclared) :
    ∃ name, broken = .scope (.alreadyDeclared name) := by
  cases broken with
  | scope fault =>
    cases fault with
    | notDeclared name => cases h
    | alreadyDeclared name => exact ⟨name, rfl⟩
  | _ => cases h

/-- Name resolution is lexical and exact.  If a program is resolved, its names have
their lexical meanings; a name is reported as not declared only where a use sees
no declaration, and as already declared only at a second declaration in one
scope. -/
theorem resolution_is_lexical (p : Surface.Program) :
    (∀ t, resolve p = .ok t → LexicallyResolved p.walk t.walk) ∧
    ∀ broken pos, resolve p = .error (.rule broken pos) →
      (broken.category = .notDeclared → ∃ name i, broken = .scope (.notDeclared name) ∧
        p.walk[i]? = some (.use ⟨name, pos⟩) ∧ ∀ scope j, ¬ Sees p.walk i name scope j) ∧
      (broken.category = .alreadyDeclared → ∃ name i j scope,
        broken = .scope (.alreadyDeclared name) ∧ p.walk[i]? = some (.declare ⟨name, pos⟩) ∧
        j < i ∧ Declares p.walk name scope i ∧ Declares p.walk name scope j) := by
  have hends := resolve_ends p
  constructor
  · intro t ht
    rcases hends.ok ht with ⟨fresh, htracks⟩
    exact htracks.lexicallyResolved
  intro broken pos herror
  have hshows := hends.error herror
  constructor
  · intro hcategory
    rcases RuleBreak.eq_notDeclared hcategory with ⟨name, rfl⟩
    rcases hshows with ⟨i, hat, hnone⟩
    exact ⟨name, i, rfl, hat, hnone⟩
  · intro hcategory
    rcases RuleBreak.eq_alreadyDeclared hcategory with ⟨name, rfl⟩
    rcases hshows with ⟨i, j, scope, hat, hlt, hi, hj⟩
    exact ⟨name, i, j, scope, rfl, hat, hlt, hi, hj⟩

/-- The item of the loop has the name of an outer variable, which is used again
behind the loop. -/
def shadowing : Surface.Program :=
  ⟨[.declare ⟨⟨1, 1⟩, "x", .int ⟨1, 6⟩ 1⟩,
    .forEach ⟨2, 1⟩ (.var ⟨2, 5⟩ "x") "x" [.print ⟨3, 1⟩ (.var ⟨3, 7⟩ "x")],
    .print ⟨4, 1⟩ (.var ⟨4, 7⟩ "x")]⟩

/-- The tree of that program, with two variables of one name. -/
def shadowingTree : Node :=
  .program [.declare ⟨0, "x", .int⟩ (.number (.int 1)),
    .forEach ⟨1, "x", .int⟩ (.var ⟨0, "x", .int⟩) [.print (.var ⟨1, "x", .int⟩)],
    .print (.var ⟨0, "x", .int⟩)]

/-- A use of a name that is only declared behind it. -/
def useTooEarly : Surface.Program :=
  ⟨[.print ⟨1, 1⟩ (.var ⟨1, 7⟩ "x"), .declare ⟨⟨2, 1⟩, "x", .int ⟨2, 6⟩ 1⟩]⟩

/-- Two declarations of a name in one scope, one of them in a branch. -/
def declaredTwice : Surface.Program :=
  ⟨[.branch ⟨1, 1⟩ (.bool ⟨1, 4⟩ true) [.declare ⟨⟨1, 9⟩, "x", .int ⟨1, 14⟩ 1⟩] .absent,
    .declare ⟨⟨2, 1⟩, "x", .int ⟨2, 6⟩ 2⟩]⟩

theorem shadowing_is_lexical :
    (resolve shadowing = .ok shadowingTree ∧
      LexicallyResolved shadowing.walk shadowingTree.walk) ∧
    (resolve useTooEarly = .error (.rule (.scope (.notDeclared "x")) ⟨1, 7⟩) ∧
      ∃ i : Nat, useTooEarly.walk[i]? = some (.use ⟨"x", ⟨1, 7⟩⟩) ∧
        ∀ scope j, ¬ Sees useTooEarly.walk i "x" scope j) ∧
    (resolve declaredTwice = .error (.rule (.scope (.alreadyDeclared "x")) ⟨2, 1⟩) ∧
      ∃ i j scope, declaredTwice.walk[i]? = some (.declare ⟨"x", ⟨2, 1⟩⟩) ∧ j < i ∧
        Declares declaredTwice.walk "x" scope i ∧ Declares declaredTwice.walk "x" scope j) := by
  refine ⟨⟨rfl, (resolution_is_lexical shadowing).1 _ rfl⟩, ⟨rfl, ?_⟩, ⟨rfl, ?_⟩⟩
  · rcases ((resolution_is_lexical useTooEarly).2 _ _ rfl).1 rfl with ⟨name, i, hname, hat, hnone⟩
    cases hname
    exact ⟨i, hat, hnone⟩
  · rcases ((resolution_is_lexical declaredTwice).2 _ _ rfl).2 rfl with
      ⟨name, i, j, scope, hname, hat, hlt, hi, hj⟩
    cases hname
    exact ⟨i, j, scope, hat, hlt, hi, hj⟩

end Squishc
