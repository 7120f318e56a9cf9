import Mathlib.Data.List.Forall2
import Squishc.Proofs.Walk

/-!
# Lexical scope

A chain of scopes can be a picture of a walk: its scopes are the open scopes of
the walk, and each of them holds the declarations that the walk met in it.  Then
looking a name up in the chain finds what the name refers to in the walk.

Main results:

- Theorem `Tracks.innermost`: a name that the chain resolves refers to its
  declaration in the innermost open scope.
- Theorem `Tracks.step`: what an event must do for the picture to stay true.
- Theorems `Tracks.enter`, `Tracks.leave`, `Tracks.use`, `Tracks.declare`: the
  picture stays true over each kind of event.
-/

namespace Squishc

/-- The number of an entity. -/
def Entity.id : Entity → Nat
  | var v => v.id
  | function f => f.id

/-! ## The picture of a walk -/

/-- Two walks meet the same names in the same way. -/
def Parallel (events : List (Event Mention)) (typed : List (Event Entity)) : Prop :=
  typed.map (Event.map Entity.name) = events.map (Event.map Mention.name)

/-- A scope holds what two parallel walks declare in the scope with a number. -/
def Mirrors (events : List (Event Mention)) (typed : List (Event Entity)) (scope : Scope)
    (number : Nat) : Prop :=
  ∀ name e, scope.find? name = some e ↔
    ∃ j, Declares events name number j ∧ typed[j]? = some (.declare e)

/-- A chain of scopes is a picture of two parallel walks, one through the surface
tree and one through the typed tree.  The numbers below a bound are taken. -/
structure Tracks (events : List (Event Mention)) (typed : List (Event Entity)) (chain : Chain)
    (bound : Nat) : Prop where
  parallel : Parallel events typed
  scopes : List.Forall₂ (Mirrors events typed) chain (openScopes events)
  used : ∀ (i : Nat) (m : Mention), events[i]? = some (.use m) →
    ∃ j e, Binds events i j ∧ typed[j]? = some (.declare e) ∧ typed[i]? = some (.use e)
  once : ∀ name scope j k, Declares events name scope j → Declares events name scope k → j = k
  taken : ∀ (j : Nat) (e : Entity), typed[j]? = some (.declare e) → e.id < bound
  distinct : ∀ (j k : Nat) (e : Entity),
    typed[j]? = some (.declare e) → typed[k]? = some (.declare e) → j = k

/-- Nothing was walked yet. -/
theorem tracks_nil : Tracks [] [] [] 0 where
  parallel := rfl
  scopes := .nil
  used i m h := by simp at h
  once name scope j k h := absurd h.lt_length (by simp)
  taken j e h := by simp at h
  distinct j k e h := by simp at h

section Lookup

variable {events : List (Event Mention)} {typed : List (Event Entity)}

theorem Parallel.length_eq (h : Parallel events typed) : typed.length = events.length := by
  simpa using congrArg List.length h

/-- The entity that the typed walk declares where the other declares a name. -/
theorem Parallel.entity_at (h : Parallel events typed) {name : String} {scope j : Nat}
    (hj : Declares events name scope j) :
    ∃ e, typed[j]? = some (.declare e) ∧ e.name = name := by
  rcases hj with ⟨⟨pos, hat⟩, -⟩
  have hsame := congrArg (fun events => events[j]?) h
  simp only [List.getElem?_map, hat, Option.map_some, Option.map_eq_some_iff] at hsame
  rcases hsame with ⟨ev, hev, hmap⟩
  cases ev <;> simp only [Event.map, Event.declare.injEq, reduceCtorEq] at hmap
  exact ⟨_, hev, hmap⟩

theorem Mirrors.find?_isSome_iff {scope : Scope} {number : Nat}
    (hmirror : Mirrors events typed scope number) (hpar : Parallel events typed) (name : String) :
    (scope.find? name).isSome ↔ ∃ j, Declares events name number j := by
  rw [Option.isSome_iff_exists]
  constructor
  · rintro ⟨e, he⟩
    rcases (hmirror name e).mp he with ⟨j, hj, -⟩
    exact ⟨j, hj⟩
  · rintro ⟨j, hj⟩
    rcases hpar.entity_at hj with ⟨e, he, -⟩
    exact ⟨e, (hmirror name e).mpr ⟨j, hj, he⟩⟩

variable {chain : Chain} {bound : Nat}

/-- A name that the chain does not resolve has no declaration in an open scope. -/
theorem Tracks.not_declares (h : Tracks events typed chain bound) {name : String}
    (hnone : chain.resolve? name = none) {number : Nat} (hopen : number ∈ openScopes events)
    (j : Nat) : ¬ Declares events name number j := by
  intro hj
  rcases h with ⟨hpar, hscopes, -, -, -, -⟩
  generalize openScopes events = numbers at hopen hscopes
  induction hscopes with
  | nil => simp at hopen
  | @cons s inner chain numbers hmirror _ ih =>
    rw [Chain.resolve?, List.findSome?_cons] at hnone
    cases hfind : s.find? name with
    | some e => simp [hfind] at hnone
    | none =>
      rcases List.mem_cons.mp hopen with rfl | hopen
      · have hsome := (hmirror.find?_isSome_iff hpar name).mpr ⟨j, hj⟩
        simp [hfind] at hsome
      · simp only [hfind] at hnone
        exact ih hnone hopen

/-- A name that the chain resolves has a declaration in an open scope, and none in
a scope further in. -/
theorem Tracks.innermost (h : Tracks events typed chain bound) {name : String} {e : Entity}
    (hsome : chain.resolve? name = some e) :
    ∃ number j, number ∈ openScopes events ∧ Declares events name number j ∧
      typed[j]? = some (.declare e) ∧
      ∀ other ∈ openScopes events, ∀ k, Declares events name other k → other ≤ number := by
  rcases h with ⟨hpar, hscopes, -, -, -, -⟩
  have hsorted := (openScopes_pairwise events).1
  generalize openScopes events = numbers at hscopes hsorted ⊢
  induction hscopes with
  | nil => simp [Chain.resolve?] at hsome
  | @cons s inner chain numbers hmirror _ ih =>
    rw [Chain.resolve?, List.findSome?_cons] at hsome
    rcases List.pairwise_cons.mp hsorted with ⟨houter, hsorted⟩
    cases hfind : s.find? name with
    | some found =>
      simp only [hfind, Option.some.injEq] at hsome
      subst hsome
      rcases (hmirror name found).mp hfind with ⟨j, hj, hat⟩
      refine ⟨inner, j, List.mem_cons_self, hj, hat, ?_⟩
      intro other hother k _
      rcases List.mem_cons.mp hother with rfl | hother
      · exact Nat.le_refl other
      · exact Nat.le_of_lt (houter other hother)
    | none =>
      simp only [hfind] at hsome
      rcases ih hsome hsorted with ⟨number, j, hnumber, hj, hat, hinner⟩
      refine ⟨number, j, List.mem_cons_of_mem _ hnumber, hj, hat, ?_⟩
      intro other hother k hk
      rcases List.mem_cons.mp hother with rfl | hother
      · have hdeclared := (hmirror.find?_isSome_iff hpar name).mpr ⟨k, hk⟩
        simp [hfind] at hdeclared
      · exact hinner other hother k hk

end Lookup

/-! ## One event -/

theorem getElem?_append_singleton {α : Type} {as : List α} {a b : α} {i : Nat} :
    (as ++ [a])[i]? = some b ↔ as[i]? = some b ∨ i = as.length ∧ a = b := by
  by_cases hlt : i < as.length
  · rw [List.getElem?_append_left hlt]
    exact (or_iff_left (by omega)).symm
  · rw [List.getElem?_append_right (by omega), List.getElem?_eq_none (l := as) (by omega)]
    by_cases heq : i = as.length
    · simp [heq]
    · have hpos : i - as.length = i - as.length - 1 + 1 := by omega
      rw [hpos]
      simp [heq]

section Step

variable {events : List (Event Mention)} {typed : List (Event Entity)} {chain : Chain}
  {bound : Nat}

/-- A scope keeps its picture over an event that declares nothing in it. -/
theorem Mirrors.step {scope : Scope} {number : Nat}
    (hmirror : Mirrors events typed scope number) (hpar : Parallel events typed)
    {ev : Event Mention} (now : Event Entity)
    (hother : ∀ m, ev = .declare m → (openScopes events).head? ≠ some number) :
    Mirrors (events ++ [ev]) (typed ++ [now]) scope number := by
  intro name e
  rw [hmirror name e]
  refine exists_congr fun j => ?_
  have hsame : Declares (events ++ [ev]) name number j ↔ Declares events name number j := by
    rw [declares_append_singleton]
    refine or_iff_left ?_
    rintro ⟨-, ⟨pos, rfl⟩, hhead⟩
    exact hother _ rfl hhead
  rw [hsame]
  refine and_congr_right fun hj => ?_
  have hlt : j < typed.length := by
    rw [hpar.length_eq]
    exact hj.lt_length
  rw [List.getElem?_append_left hlt]

/-- Scopes keep their pictures over an event that declares nothing in them. -/
theorem Mirrors.steps {scopes : Chain} {numbers : List Nat}
    (hmirrors : List.Forall₂ (Mirrors events typed) scopes numbers)
    (hpar : Parallel events typed) {ev : Event Mention} (now : Event Entity)
    (hother : ∀ m, ev = .declare m → ∀ number ∈ numbers, (openScopes events).head? ≠ some number) :
    List.Forall₂ (Mirrors (events ++ [ev]) (typed ++ [now])) scopes numbers := by
  induction hmirrors with
  | nil => exact .nil
  | cons hmirror _ ih =>
    refine .cons (hmirror.step hpar now fun m hm => hother m hm _ List.mem_cons_self) ?_
    exact ih fun m hm number hnumber => hother m hm number (List.mem_cons_of_mem _ hnumber)

/-- The picture stays true over an event, if the new chain is a picture of the
scopes, a use gets the entity of what it refers to and a declaration gets the
next number. -/
theorem Tracks.step (h : Tracks events typed chain bound) {ev : Event Mention}
    {now : Event Entity} {next : Chain} {top : Nat}
    (hname : now.map Entity.name = ev.map Mention.name)
    (hscopes : List.Forall₂ (Mirrors (events ++ [ev]) (typed ++ [now])) next
      (ev.scopes events.length (openScopes events)))
    (hused : ∀ m, ev = .use m → ∃ j e, Binds (events ++ [ev]) events.length j ∧
      typed[j]? = some (.declare e) ∧ now = .use e)
    (honce : ∀ m number j, ev = .declare m → (openScopes events).head? = some number →
      ¬ Declares events m.name number j)
    (htaken : ∀ e, now = .declare e → e.id = bound ∧ bound < top) (hbound : bound ≤ top) :
    Tracks (events ++ [ev]) (typed ++ [now]) next top := by
  have hlength := h.parallel.length_eq
  refine ⟨?_, ?_, ?_, ?_, ?_, ?_⟩
  · have hpar := h.parallel
    unfold Parallel at hpar ⊢
    rw [List.map_append, List.map_append, hpar, List.map_singleton, List.map_singleton, hname]
  · rwa [openScopes_append_singleton]
  · intro i m hi
    rcases getElem?_append_singleton.mp hi with hi | ⟨rfl, rfl⟩
    · have hlt : i < events.length := (List.getElem?_eq_some_iff.mp hi).1
      rcases h.used i m hi with ⟨j, e, hbinds, hj, he⟩
      exact ⟨j, e, (binds_append hlt).mpr hbinds, getElem?_append_singleton.mpr (.inl hj),
        getElem?_append_singleton.mpr (.inl he)⟩
    · rcases hused m rfl with ⟨j, e, hbinds, hj, rfl⟩
      exact ⟨j, e, hbinds, getElem?_append_singleton.mpr (.inl hj),
        getElem?_append_singleton.mpr (.inr ⟨hlength.symm, rfl⟩)⟩
  · intro name number j k hj hk
    rw [declares_append_singleton] at hj hk
    rcases hj with hj | ⟨rfl, ⟨pos, rfl⟩, hhead⟩
    · rcases hk with hk | ⟨rfl, ⟨pos, rfl⟩, hhead⟩
      · exact h.once name number j k hj hk
      · exact absurd hj (honce _ number j rfl hhead)
    · rcases hk with hk | ⟨rfl, -, -⟩
      · exact absurd hk (honce _ number k rfl hhead)
      · rfl
  · intro j e hj
    rcases getElem?_append_singleton.mp hj with hj | ⟨-, rfl⟩
    · have hid := h.taken j e hj
      omega
    · have hid := htaken e rfl
      omega
  · intro j k e hj hk
    rw [getElem?_append_singleton] at hj hk
    rcases hj with hj | ⟨rfl, rfl⟩
    · rcases hk with hk | ⟨rfl, rfl⟩
      · exact h.distinct j k e hj hk
      · have hid := h.taken j e hj
        have hid' := htaken e rfl
        omega
    · rcases hk with hk | ⟨rfl, -⟩
      · have hid := h.taken k e hk
        have hid' := htaken e rfl
        omega
      · rfl

/-- A scope opens. -/
theorem Tracks.enter (h : Tracks events typed chain bound) {scope : Scope}
    (hempty : scope.locals = []) :
    Tracks (events ++ [.enter]) (typed ++ [.enter]) (scope :: chain) bound := by
  refine h.step rfl (.cons ?_ ?_) (by simp) (by simp) (by simp) (Nat.le_refl bound)
  · intro name e
    have hnew : ∀ j, ¬ Declares (events ++ [.enter]) name events.length j := by
      intro j hj
      -- The scopes of earlier declarations have smaller numbers.
      have hj' : Declares events name events.length j := by
        simpa [declares_append_singleton] using hj
      have hopen := List.mem_of_mem_head? hj'.2
      have hbelow := (openScopes_pairwise (events.take j)).2 _ hopen
      have hlength := List.length_take_le' j events
      omega
    simp [Scope.find?, hempty, hnew]
  · exact Mirrors.steps h.scopes h.parallel _ (by simp)

/-- A scope closes. -/
theorem Tracks.leave (h : Tracks events typed chain bound) :
    Tracks (events ++ [.leave]) (typed ++ [.leave]) chain.tail bound := by
  refine h.step rfl ?_ (by simp) (by simp) (by simp) (Nat.le_refl bound)
  have hscopes : List.Forall₂ (Mirrors (events ++ [.leave]) (typed ++ [.leave])) chain
      (openScopes events) :=
    Mirrors.steps h.scopes h.parallel _ (by simp)
  unfold Event.scopes
  generalize openScopes events = numbers at hscopes ⊢
  cases hscopes with
  | nil => exact .nil
  | cons _ houter => exact houter

/-- A name is used. -/
theorem Tracks.use (h : Tracks events typed chain bound) {m : Mention} {e : Entity}
    (hsome : chain.resolve? m.name = some e) :
    Tracks (events ++ [.use m]) (typed ++ [.use e]) chain bound := by
  rcases h.innermost hsome with ⟨number, j, hopen, hj, hat, hinner⟩
  have hname : e.name = m.name := by
    rcases h.parallel.entity_at hj with ⟨e', hat', hname⟩
    rw [hat] at hat'
    cases hat'
    exact hname
  refine h.step (by simp [Event.map, hname]) ?_ ?_ (by simp) (by simp) (Nat.le_refl bound)
  · exact Mirrors.steps h.scopes h.parallel _ (by simp)
  · intro m' hm
    cases hm
    refine ⟨j, e, ⟨m.name, number, ⟨m.pos, by simp⟩, ?_, ?_⟩, hat, rfl⟩
    · rw [sees_append (Nat.le_refl _)]
      exact ⟨by rwa [List.take_length], hj.lt_length, hj⟩
    · intro other k hsees
      rw [sees_append (Nat.le_refl _)] at hsees
      rcases hsees with ⟨hother, -, hk⟩
      rw [List.take_length] at hother
      exact hinner other hother k hk

/-- Some names are used. -/
theorem Tracks.uses (h : Tracks events typed chain bound) {ms : List Mention} {es : List Entity}
    (hsome : List.Forall₂ (fun m e => chain.resolve? m.name = some e) ms es) :
    Tracks (events ++ ms.map .use) (typed ++ es.map .use) chain bound := by
  induction hsome generalizing events typed with
  | nil => simpa using h
  | cons hm _ ih => simpa using ih (h.use hm)

/-- The innermost scope after a declaration. -/
theorem Mirrors.declare {top next : Scope} {inner : Nat}
    (hmirror : Mirrors events typed top inner) (hpar : Parallel events typed)
    (hhead : (openScopes events).head? = some inner) {m : Mention} {e : Entity}
    (hdeclare : top.declare? m.name e = some next)
    (hnone : ∀ j, ¬ Declares events m.name inner j) :
    Mirrors (events ++ [.declare m]) (typed ++ [.declare e]) next inner := by
  have hlength := hpar.length_eq
  intro name e'
  rw [Scope.find?_declare? hdeclare name]
  by_cases hsame : name = m.name
  · subst hsame
    rw [if_pos rfl]
    constructor
    · rintro ⟨⟩
      refine ⟨events.length, declares_append_singleton.mpr (.inr ⟨rfl, ⟨m.pos, rfl⟩, hhead⟩), ?_⟩
      exact getElem?_append_singleton.mpr (.inr ⟨hlength.symm, rfl⟩)
    · rintro ⟨j, hj, hat⟩
      rcases declares_append_singleton.mp hj with hj | ⟨rfl, -, -⟩
      · exact absurd hj (hnone j)
      · simpa [← hlength] using hat
  · rw [if_neg hsame, hmirror name e']
    refine exists_congr fun j => ?_
    have hdeclares : Declares (events ++ [.declare m]) name inner j ↔
        Declares events name inner j := by
      rw [declares_append_singleton]
      refine or_iff_left ?_
      rintro ⟨-, ⟨pos, hm⟩, -⟩
      cases hm
      exact hsame rfl
    rw [hdeclares]
    refine and_congr_right fun hj => ?_
    have hlt := hj.lt_length
    rw [List.getElem?_append_left (by omega)]

theorem Scope.find?_of_declare? {top next : Scope} {name : String} {e : Entity}
    (h : top.declare? name e = some next) : top.find? name = none := by
  unfold Scope.declare? at h
  split at h
  · cases h
  · rename_i hfree
    simpa using hfree

/-- A name is declared in the innermost scope, for the entity with the next
number. -/
theorem Tracks.declare {top next : Scope} {outer : Chain}
    (h : Tracks events typed (top :: outer) bound) {m : Mention} {e : Entity}
    (hdeclare : top.declare? m.name e = some next) (hname : e.name = m.name)
    (hid : e.id = bound) :
    Tracks (events ++ [.declare m]) (typed ++ [.declare e]) (next :: outer) (bound + 1) := by
  have hsorted := (openScopes_pairwise events).1
  have hscopes := h.scopes
  cases hopen : openScopes events with
  | nil => simp [hopen] at hscopes
  | cons inner others =>
    rw [hopen] at hscopes hsorted
    rcases List.forall₂_cons.mp hscopes with ⟨hmirror, houter⟩
    have hhead : (openScopes events).head? = some inner := by rw [hopen, List.head?_cons]
    have hnone : ∀ j, ¬ Declares events m.name inner j := by
      intro j hj
      have hsome := (hmirror.find?_isSome_iff h.parallel m.name).mpr ⟨j, hj⟩
      simp [Scope.find?_of_declare? hdeclare] at hsome
    refine h.step (by simp [Event.map, hname]) ?_ (by simp) ?_ ?_ (Nat.le_succ bound)
    · rw [hopen]
      refine .cons (hmirror.declare h.parallel hhead hdeclare hnone) ?_
      refine Mirrors.steps houter h.parallel _ fun _ _ number hnumber hsame => ?_
      -- The scopes further out have smaller numbers.
      have hlt := (List.pairwise_cons.mp hsorted).1 number hnumber
      rw [hhead, Option.some.injEq] at hsame
      omega
    · intro m' number j hm hnumber
      cases hm
      rw [hhead, Option.some.injEq] at hnumber
      subst hnumber
      exact hnone j
    · intro e' he
      cases he
      exact ⟨hid, Nat.lt_succ_self bound⟩

end Step

end Squishc
