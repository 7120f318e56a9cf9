import Mathlib.Data.List.Induction
import Squishc.Proofs.TreeForm
import Squishc.Resolve

/-!
# Walks

What a reader meets who walks through a program from its beginning to its end:
scopes that open and close, declarations and uses of names.  A walk of a surface
tree meets names and where they are written; a walk of a typed tree meets
entities.  Which declaration a use refers to is a matter of the walk alone.

The program, the body of a function with its parameters, the body of a loop and
a loop with a header as a whole each open a scope; the two sides of a branch do
not.  A declaration is met behind its initializer, that of a function before the
parameters.

Main results:

- Theorem `openScopes_append_singleton`: what one event does to the open scopes.
- Theorem `openScopes_pairwise`: a scope has a greater number than those around
  it.
- Theorem `declares_append_singleton`: which declarations one event adds.
- Theorem `binds_append`: what follows a use does not change what binds it.
-/

namespace Squishc

/-- An event of a walk. -/
inductive Event (α : Type) where
  | enter
  | leave
  | declare (a : α)
  | use (a : α)
deriving DecidableEq, Repr

/-- The same event with something else in the place of the name. -/
def Event.map {α β : Type} (f : α → β) : Event α → Event β
  | enter => enter
  | leave => leave
  | declare a => declare (f a)
  | use a => use (f a)

/-- What an event declares. -/
def Event.declared? {α : Type} : Event α → Option α
  | declare a => some a
  | enter | leave | use _ => none

theorem filterMap_declared?_uses {α : Type} (as : List α) :
    (as.map Event.use).filterMap Event.declared? = [] := by
  simp [Event.declared?]

/-- A name and the place where it is written. -/
structure Mention where
  name : String
  pos : Pos
deriving DecidableEq, Repr

/-! ## Walks of surface trees -/

namespace Surface

mutual

/-- The names that an expression uses, in the order in which they are looked up. -/
def Expr.mentions : Expr → List Mention
  | .var pos name => [⟨name, pos⟩]
  | .array _ elements => mentionsAll elements
  | .index _ a i => a.mentions ++ i.mentions
  | .call pos callee args => ⟨callee, pos⟩ :: mentionsAll args
  | .unary _ _ operand => operand.mentions
  | .binary _ _ left right => left.mentions ++ right.mentions
  | .conditional _ consequent test alternate =>
    consequent.mentions ++ (test.mentions ++ alternate.mentions)
  | .int _ _ | .float _ _ | .bool _ _ | .string _ _ | .stray _ => []

/-- The names that some expressions use. -/
def mentionsAll : List Expr → List Mention
  | [] => []
  | e :: rest => e.mentions ++ mentionsAll rest

end

/-- The walk of an expression, which only uses names. -/
def Expr.walk (e : Expr) : List (Event Mention) := e.mentions.map .use

/-- The walk of a declaration. -/
def Binding.walkDeclare (b : Binding) : List (Event Mention) :=
  b.value.walk ++ [.declare ⟨b.name, b.pos⟩]

/-- The walk of an assignment. -/
def Binding.walkAssign (b : Binding) : List (Event Mention) :=
  .use ⟨b.name, b.pos⟩ :: b.value.walk

/-- The declarations of parameters. -/
def walkParams (params : List Param) : List (Event Mention) :=
  params.map (fun p => .declare ⟨p.name, p.pos⟩)

mutual

/-- The walk of a statement. -/
def Stmt.walk : Stmt → List (Event Mention)
  | .print _ value => value.walk
  | .declare b => b.walkDeclare
  | .assign b => b.walkAssign
  | .branch _ test body rest => test.walk ++ (walkAll body ++ rest.walk)
  | .whileLoop _ test body => test.walk ++ .enter :: (walkAll body ++ [.leave])
  | .forLoop _ init test update body =>
    .enter :: (init.walkDeclare ++ (test.walk ++ (update.walkAssign ++ (walkAll body ++ [.leave]))))
  | .forEach pos collection name body =>
    collection.walk ++ .enter :: .declare ⟨name, pos⟩ :: (walkAll body ++ [.leave])
  | .function pos name params body =>
    .declare ⟨name, pos⟩ :: .enter :: (walkParams params ++ (walkAll body ++ [.leave]))
  | .ret _ (some value) => value.walk
  | .call pos callee args => .use ⟨callee, pos⟩ :: (mentionsAll args).map .use
  | .ret _ none | .exit _ | .stray _ => []

/-- The walk of some statements, one after the other. -/
def walkAll : List Stmt → List (Event Mention)
  | [] => []
  | s :: rest => s.walk ++ walkAll rest

/-- The walk of what follows the body of a branch. -/
def Else.walk : Else → List (Event Mention)
  | .body body => walkAll body
  | .branch _ test body rest => test.walk ++ (walkAll body ++ rest.walk)
  | .absent | .stray _ => []

end

/-- The walk of a program. -/
def Program.walk (p : Program) : List (Event Mention) :=
  .enter :: (walkAll p.statements ++ [.leave])

end Surface

/-! ## Walks of typed trees -/

namespace Node

mutual

/-- The entities that an expression uses, in the order of the surface tree. -/
def mentioned : Node → List Entity
  | var v => [.var v]
  | array elements _ => mentionedAll elements
  | index a i _ => a.mentioned ++ i.mentioned
  | call f args _ => .function f :: mentionedAll args
  | unary _ operand _ => operand.mentioned
  | binary _ left right _ => left.mentioned ++ right.mentioned
  | conditional consequent test alternate _ =>
    consequent.mentioned ++ (test.mentioned ++ alternate.mentioned)
  | _ => []

/-- The entities that some expressions use. -/
def mentionedAll : List Node → List Entity
  | [] => []
  | n :: rest => n.mentioned ++ mentionedAll rest

end

mutual

/-- The walk of a statement. -/
def walk : Node → List (Event Entity)
  | list items => walkAll items
  | program statements => .enter :: (walkAll statements ++ [.leave])
  | print argument => argument.mentioned.map .use
  | declare v initializer => initializer.mentioned.map .use ++ [.declare (.var v)]
  | assign target source => .use (.var target) :: source.mentioned.map .use
  | shortIf test consequence => test.mentioned.map .use ++ walkAll consequence
  | ifElse test consequence alternate =>
    test.mentioned.map .use ++ (walkAll consequence ++ alternate.walk)
  | whileLoop test body => test.mentioned.map .use ++ .enter :: (walkAll body ++ [.leave])
  | forLoop declaration test increment body _ =>
    .enter :: (declaration.walk ++ (test.mentioned.map .use ++
      (increment.walk ++ (walkAll body ++ [.leave]))))
  | forEach iterator collection body =>
    collection.mentioned.map .use ++ .enter :: .declare (.var iterator) ::
      (walkAll body ++ [.leave])
  | define f body =>
    .declare (.function f) :: .enter ::
      (f.params.map (fun v => .declare (.var v)) ++ (walkAll body ++ [.leave]))
  | ret expression => expression.mentioned.map .use
  | call f args _ => .use (.function f) :: (mentionedAll args).map .use
  | _ => []

/-- The walk of some statements, one after the other. -/
def walkAll : List Node → List (Event Entity)
  | [] => []
  | n :: rest => n.walk ++ walkAll rest

end

end Node

/-! ## Scopes of a walk

A scope is known by the number of the event that opens it. -/

section Scopes

variable {α : Type}

/-- What one event with the given number does to the open scopes. -/
def Event.scopes (number : Nat) (scopes : List Nat) : Event α → List Nat
  | enter => number :: scopes
  | leave => scopes.tail
  | declare _ | use _ => scopes

/-- The scopes that are open behind some events, the innermost first.  The first
event has the given number and meets the given scopes. -/
def openFrom (number : Nat) (scopes : List Nat) : List (Event α) → List Nat
  | [] => scopes
  | ev :: rest => openFrom (number + 1) (ev.scopes number scopes) rest

/-- The scopes that are open behind a walk. -/
def openScopes (events : List (Event α)) : List Nat := openFrom 0 [] events

theorem openFrom_append (number : Nat) (scopes : List Nat) (before after : List (Event α)) :
    openFrom number scopes (before ++ after) =
      openFrom (number + before.length) (openFrom number scopes before) after := by
  induction before generalizing number scopes with
  | nil => rfl
  | cons ev rest ih =>
    have hlength : number + (ev :: rest).length = number + 1 + rest.length := by
      simp only [List.length_cons]
      omega
    rw [hlength]
    exact ih _ _

/-- An event changes the open scopes by itself alone. -/
theorem openScopes_append_singleton (events : List (Event α)) (ev : Event α) :
    openScopes (events ++ [ev]) = ev.scopes events.length (openScopes events) := by
  unfold openScopes
  rw [openFrom_append, Nat.zero_add]
  rfl

/-- Uses open and close nothing. -/
theorem openScopes_append_uses (events : List (Event α)) (as : List α) :
    openScopes (events ++ as.map .use) = openScopes events := by
  induction as generalizing events with
  | nil => simp
  | cons a rest ih =>
    have hstep := ih (events ++ [.use a])
    rw [openScopes_append_singleton] at hstep
    simpa [Event.scopes] using hstep

/-- Scopes are opened by earlier events, and an inner scope later than the scopes
around it. -/
theorem openScopes_pairwise (events : List (Event α)) :
    (openScopes events).Pairwise (· > ·) ∧ ∀ s ∈ openScopes events, s < events.length := by
  induction events using List.reverseRecOn with
  | nil => exact ⟨.nil, by simp [openScopes, openFrom]⟩
  | append_singleton events ev ih =>
    rcases ih with ⟨hsorted, hbelow⟩
    have hweaker : ∀ s ∈ openScopes events, s < (events ++ [ev]).length := by
      intro s hs
      have hs' := hbelow s hs
      simp only [List.length_append, List.length_singleton]
      omega
    rw [openScopes_append_singleton]
    cases ev with
    | enter =>
      refine ⟨List.pairwise_cons.mpr ⟨hbelow, hsorted⟩, ?_⟩
      intro s hs
      rcases List.mem_cons.mp hs with rfl | hs
      · simp
      · exact hweaker s hs
    | leave =>
      exact ⟨hsorted.tail, fun s hs => hweaker s (List.mem_of_mem_tail hs)⟩
    | declare a => exact ⟨hsorted, hweaker⟩
    | use a => exact ⟨hsorted, hweaker⟩

end Scopes

/-! ## Declarations and what they bind -/

/-- The event at a place declares a name in a scope. -/
def Declares (events : List (Event Mention)) (name : String) (scope place : Nat) : Prop :=
  (∃ pos, events[place]? = some (.declare ⟨name, pos⟩)) ∧
    (openScopes (events.take place)).head? = some scope

/-- A place sees an earlier declaration of a name, made in its own scope or in one
around it. -/
def Sees (events : List (Event Mention)) (place : Nat) (name : String)
    (scope declaration : Nat) : Prop :=
  scope ∈ openScopes (events.take place) ∧ declaration < place ∧
    Declares events name scope declaration

/-- The use at a place refers to a declaration: the one it sees in the innermost
scope.  Of two open scopes the inner one has the greater number. -/
def Binds (events : List (Event Mention)) (place declaration : Nat) : Prop :=
  ∃ name scope, (∃ pos, events[place]? = some (.use ⟨name, pos⟩)) ∧
    Sees events place name scope declaration ∧
    ∀ other earlier, Sees events place name other earlier → other ≤ scope

theorem Declares.lt_length {events : List (Event Mention)} {name : String} {scope place : Nat}
    (h : Declares events name scope place) : place < events.length := by
  rcases h with ⟨⟨pos, hat⟩, -⟩
  exact (List.getElem?_eq_some_iff.mp hat).1

/-- What follows a place does not change what is declared there. -/
theorem declares_append {events more : List (Event Mention)} {name : String}
    {scope place : Nat} (hplace : place < events.length) :
    Declares (events ++ more) name scope place ↔ Declares events name scope place := by
  unfold Declares
  rw [List.getElem?_append_left hplace, List.take_append_of_le_length (Nat.le_of_lt hplace)]

/-- One more event adds no declaration but its own, which belongs to the innermost
scope. -/
theorem declares_append_singleton {events : List (Event Mention)} {ev : Event Mention}
    {name : String} {scope place : Nat} :
    Declares (events ++ [ev]) name scope place ↔
      Declares events name scope place ∨
        place = events.length ∧ (∃ pos, ev = .declare ⟨name, pos⟩) ∧
          (openScopes events).head? = some scope := by
  constructor
  · intro h
    have hplace := h.lt_length
    rw [List.length_append, List.length_singleton] at hplace
    by_cases hlt : place < events.length
    · exact .inl ((declares_append hlt).mp h)
    · have heq : place = events.length := by omega
      subst heq
      rcases h with ⟨⟨pos, hat⟩, hscope⟩
      simp only [List.getElem?_concat_length, Option.some.injEq, List.take_left] at hat hscope
      exact .inr ⟨rfl, ⟨pos, hat⟩, hscope⟩
  · rintro (h | ⟨rfl, ⟨pos, rfl⟩, hscope⟩)
    · exact (declares_append h.lt_length).mpr h
    · exact ⟨⟨pos, by simp⟩, by simpa using hscope⟩

/-- Uses declare nothing. -/
theorem declares_append_uses {events : List (Event Mention)} (ms : List Mention) {name : String}
    {scope place : Nat} :
    Declares (events ++ ms.map .use) name scope place ↔ Declares events name scope place := by
  induction ms generalizing events with
  | nil => simp
  | cons m rest ih =>
    have hstep := @ih (events ++ [.use m])
    rw [declares_append_singleton] at hstep
    simpa using hstep

/-- What follows a place does not change what it sees. -/
theorem sees_append {events more : List (Event Mention)} {place : Nat} {name : String}
    {scope declaration : Nat} (hplace : place ≤ events.length) :
    Sees (events ++ more) place name scope declaration ↔
      Sees events place name scope declaration := by
  unfold Sees
  rw [List.take_append_of_le_length hplace]
  refine and_congr_right fun _ => and_congr_right fun hlt => ?_
  exact declares_append (by omega)

/-- What follows a use does not change what it refers to. -/
theorem binds_append {events more : List (Event Mention)} {place declaration : Nat}
    (hplace : place < events.length) :
    Binds (events ++ more) place declaration ↔ Binds events place declaration := by
  unfold Binds
  simp only [List.getElem?_append_left hplace, sees_append (Nat.le_of_lt hplace)]

end Squishc
