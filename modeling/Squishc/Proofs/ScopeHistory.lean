import Squishc.ScopeTree

/-!
# Histories of scopes

A tree of scopes grows by operations that open and declare, in any order and on any
scopes that exist.  What a scope answers is read off the history alone: which scopes
were opened inside which, and what was declared where first.  The tree keeps a record
of exactly that.

Main results:

- Theorem `records_grown`: after every history the tree records what was opened and
  declared in it.
- Theorem `Records.resolve?_chain`: a name stands for what the first scope on the way
  to the root declares.
- Theorem `Records.owner?_isNone`: a scope has no owner if no scope on the way to the
  root was opened with one.
- Theorem `findSome?_declared`: a declaration is seen from the scopes inside its own
  between which and it nothing declares the same name.
- Theorem `scope_operations_act_locally`: all of this for every scope after every
  history, with the effect of one more declaration.
-/

namespace Squishc

namespace ScopeTree

/-! ## Histories -/

/-- An operation on a tree of scopes. -/
inductive Operation where
  | child (outer : Nat) (inLoop : Bool) (owner? : Option Entity)
  | declare (scope : Nat) (name : String) (e : Entity)

/-- The scope on which an operation works. -/
def Operation.target : Operation → Nat
  | child outer _ _ => outer
  | declare scope _ _ => scope

/-- The tree after an operation.  One that fails gives no tree, and the old one is
kept. -/
def perform (t : ScopeTree) : Operation → ScopeTree
  | .child outer inLoop owner? =>
    match t.child outer inLoop owner? with
    | some (_, after) => after
    | none => t
  | .declare scope name e =>
    match t.declare scope name e with
    | .ok after => after
    | .error _ => t

/-- The tree that a history leaves. -/
def grown (history : List Operation) : ScopeTree := history.foldl perform root

/-- How a scope was opened: inside which scope, and with which owner of its own. -/
structure Opening where
  outer : Nat
  owner? : Option Entity

/-- The opening that an operation makes. -/
def Operation.opening? : Operation → Option Opening
  | child outer _ owner? => some ⟨outer, owner?⟩
  | declare _ _ _ => none

/-- All openings of a history.  The scope with the number `n + 1` is opened by the one
at the place `n`. -/
def openings (history : List Operation) : List Opening := history.filterMap Operation.opening?

/-- The number of scopes after a history. -/
def scopeCount (history : List Operation) : Nat := (openings history).length + 1

/-- A history each of whose operations works on a scope that exists by then. -/
inductive Legal : List Operation → Prop where
  | start : Legal []
  | next {history : List Operation} {op : Operation} (h : Legal history)
      (htarget : op.target < scopeCount history) : Legal (history ++ [op])

/-- The entity that an operation declares in a scope under a name. -/
def Operation.declared? (n : Nat) (name : String) : Operation → Option Entity
  | child _ _ _ => none
  | declare scope other e => if n = scope ∧ name = other then some e else none

/-- What a scope itself declares under a name: what was declared there first. -/
def declaredIn (history : List Operation) (n : Nat) (name : String) : Option Entity :=
  history.findSome? (Operation.declared? n name)

/-- The owner that a scope was opened with. -/
def openedWith (history : List Operation) : Nat → Option Entity
  | 0 => none
  | n + 1 => (openings history)[n]?.bind Opening.owner?

/-- A scope and the scopes around it up to the root. -/
inductive Path (history : List Operation) : Nat → List Nat → Prop where
  | root : Path history 0 [0]
  | inside {n : Nat} {o : Opening} {path : List Nat} (h : (openings history)[n]? = some o)
      (hpath : Path history o.outer path) : Path history (n + 1) ((n + 1) :: path)

/-! ## Views of a tree -/

/-- The parent and the owner of a scope. -/
def shape? (t : ScopeTree) (n : Nat) : Option (Option Nat × Option Entity) :=
  t.nodes[n]?.map fun node => (node.parent?, node.scope.owner?)

/-- What a name stands for in the scope with the given number itself. -/
def find? (t : ScopeTree) (n : Nat) (name : String) : Option Entity :=
  (t.scope? n).bind fun s => s.find? name

/-- Opening a scope adds it behind the others. -/
theorem child_eq {t : ScopeTree} {outer : Nat} {node : ScopeNode}
    (h : t.nodes[outer]? = some node) (inLoop : Bool) (owner? : Option Entity) :
    t.perform (.child outer inLoop owner?) =
      ⟨t.nodes.push ⟨node.scope.child inLoop owner?, some outer⟩⟩ := by
  rw [perform, child, scope?, h]
  rfl

theorem shape?_child {t : ScopeTree} {outer : Nat} {node : ScopeNode}
    (h : t.nodes[outer]? = some node) (inLoop : Bool) (owner? : Option Entity) (n : Nat) :
    (t.perform (.child outer inLoop owner?)).shape? n =
      if n = t.nodes.size then some (some outer, owner?.or node.scope.owner?)
      else t.shape? n := by
  rw [child_eq h, shape?, Array.getElem?_push]
  split <;> rfl

/-- A new scope declares nothing. -/
theorem find?_child {t : ScopeTree} {outer : Nat} {node : ScopeNode}
    (h : t.nodes[outer]? = some node) (inLoop : Bool) (owner? : Option Entity) (n : Nat)
    (name : String) :
    (t.perform (.child outer inLoop owner?)).find? n name = t.find? n name := by
  rw [child_eq h, find?, scope?, Array.getElem?_push]
  split
  · next hlast =>
    rw [find?, scope?, Array.getElem?_eq_none (Nat.le_of_eq hlast.symm)]
    rfl
  · rfl

/-- A declaration fails if the scope has the name already. -/
theorem declare_of_isSome {t : ScopeTree} {n : Nat} {name : String}
    (h : (t.find? n name).isSome = true) (e : Entity) :
    t.declare n name e = .error (.alreadyDeclared name) := by
  rw [find?, scope?] at h
  rw [declare]
  cases hnode : t.nodes[n]? with
  | none => simp [hnode] at h
  | some node =>
    have hfind : (node.scope.find? name).isSome = true := by simpa [hnode] using h
    simp [Scope.declare?, hfind]

/-- A declaration succeeds if the scope does not have the name. -/
theorem declare_of_eq_none {t : ScopeTree} {n : Nat} (hn : n < t.nodes.size) {name : String}
    (h : t.find? n name = none) (e : Entity) :
    ∃ after, t.declare n name e = .ok after ∧ after.nodes.size = t.nodes.size ∧
      (∀ m, after.shape? m = t.shape? m) ∧
      ∀ m other, after.find? m other =
        if m = n ∧ other = name then some e else t.find? m other := by
  obtain ⟨node, hnode⟩ : ∃ node, t.nodes[n]? = some node := ⟨_, Array.getElem?_eq_getElem hn⟩
  have hfree : node.scope.find? name = none := by simpa [find?, scope?, hnode] using h
  obtain ⟨scope, hscope⟩ : ∃ scope, node.scope.declare? name e = some scope := by
    simp [Scope.declare?, hfree]
  have howner : scope.owner? = node.scope.owner? := by
    simp only [Scope.declare?, hfree] at hscope
    cases hscope
    rfl
  refine ⟨⟨t.nodes.setIfInBounds n ⟨scope, node.parent?⟩⟩, ?_, ?_, ?_, ?_⟩
  · rw [declare, hnode]
    simp only [hscope]
  · exact Array.size_setIfInBounds
  · intro m
    by_cases hsame : m = n
    · subst hsame
      rw [shape?, shape?, Array.getElem?_setIfInBounds_self_of_lt hn, hnode, Option.map_some,
        Option.map_some, howner]
    · rw [shape?, shape?, Array.getElem?_setIfInBounds_ne (Ne.symm hsame)]
  · intro m other
    by_cases hsame : m = n
    · subst hsame
      have hfound := Scope.find?_declare? hscope other
      simpa [find?, scope?, Array.getElem?_setIfInBounds_self_of_lt hn, hnode] using hfound
    · rw [if_neg fun hhere => hsame hhere.1, find?, scope?,
        Array.getElem?_setIfInBounds_ne (Ne.symm hsame)]
      rfl

/-! ## What a tree records -/

/-- A tree that records what was opened and declared in a history. -/
structure Records (history : List Operation) (t : ScopeTree) : Prop where
  size : t.nodes.size = scopeCount history
  root : t.shape? 0 = some (none, none)
  opened : ∀ n o, (openings history)[n]? = some o → o.outer ≤ n ∧ ∃ parent? owner?,
    t.shape? o.outer = some (parent?, owner?) ∧
      t.shape? (n + 1) = some (some o.outer, o.owner?.or owner?)
  declared : ∀ n name, t.find? n name = declaredIn history n name

theorem records_root : Records [] root where
  size := rfl
  root := rfl
  opened := by
    intro n o h
    cases h
  declared := by
    intro n name
    cases n <;> rfl

theorem declaredIn_append (history : List Operation) (op : Operation) (n : Nat) (name : String) :
    declaredIn (history ++ [op]) n name =
      (declaredIn history n name).or (op.declared? n name) := by
  rw [declaredIn, List.findSome?_append, List.findSome?_singleton]
  rfl

theorem openings_append (history : List Operation) (op : Operation) :
    openings (history ++ [op]) = openings history ++ op.opening?.toList := by
  rw [openings, List.filterMap_append]
  cases op <;> rfl

namespace Records

variable {history : List Operation} {t : ScopeTree}

/-- One more scope. -/
theorem child (h : Records history t) {outer : Nat} (houter : outer < scopeCount history)
    (inLoop : Bool) (owner? : Option Entity) :
    Records (history ++ [.child outer inLoop owner?])
      (t.perform (.child outer inLoop owner?)) := by
  have hsize : t.nodes.size = (openings history).length + 1 := h.size
  obtain ⟨node, hnode⟩ : ∃ node, t.nodes[outer]? = some node :=
    ⟨_, Array.getElem?_eq_getElem (by rw [h.size]; exact houter)⟩
  have hold {n : Nat} (hn : n < t.nodes.size) :
      (t.perform (.child outer inLoop owner?)).shape? n = t.shape? n := by
    rw [shape?_child hnode, if_neg (by omega)]
  refine ⟨?_, ?_, ?_, ?_⟩
  · rw [child_eq hnode, Array.size_push, hsize, scopeCount, openings_append, List.length_append]
    rfl
  · rw [hold (by omega), h.root]
  · intro n o ho
    rw [openings_append] at ho
    by_cases hn : n < (openings history).length
    · rw [List.getElem?_append_left hn] at ho
      obtain ⟨hle, parent?, around?, haround, hshape⟩ := h.opened n o ho
      exact ⟨hle, parent?, around?, by rw [hold (by omega), haround],
        by rw [hold (by omega), hshape]⟩
    · -- The new scope is the last one.
      obtain ⟨hlast, rfl⟩ : n = (openings history).length ∧ Opening.mk outer owner? = o := by
        rw [List.getElem?_append_right (by omega)] at ho
        simp only [Operation.opening?, Option.toList_some, List.getElem?_singleton,
          Option.ite_none_right_eq_some, Option.some.injEq] at ho
        exact ⟨by omega, ho.2⟩
      have hparent : outer ≤ n := by
        rw [scopeCount] at houter
        omega
      refine ⟨hparent, node.parent?, node.scope.owner?, ?_, ?_⟩
      · rw [hold (by rw [h.size]; exact houter), shape?, hnode]
        rfl
      · rw [shape?_child hnode, if_pos (by omega)]
  · intro n name
    rw [find?_child hnode, h.declared, declaredIn_append]
    exact Option.or_none.symm

/-- One more declaration, which succeeds or fails. -/
theorem declare (h : Records history t) {d : Nat} (hd : d < scopeCount history) (name : String)
    (e : Entity) :
    Records (history ++ [.declare d name e]) (t.perform (.declare d name e)) := by
  have hopenings : openings (history ++ [.declare d name e]) = openings history := by
    rw [openings_append]
    exact List.append_nil _
  have hcount : scopeCount (history ++ [.declare d name e]) = scopeCount history := by
    rw [scopeCount, hopenings, scopeCount]
  have hdeclared (n : Nat) (other : String) :
      declaredIn (history ++ [.declare d name e]) n other =
        (t.find? n other).or (if n = d ∧ other = name then some e else none) := by
    rw [declaredIn_append, h.declared]
    rfl
  cases hfind : t.find? d name with
  | some old =>
    have hfail := declare_of_isSome (Option.isSome_of_eq_some hfind) e
    rw [perform, hfail]
    refine ⟨by rw [hcount, h.size], h.root, by rw [hopenings]; exact h.opened, ?_⟩
    intro n other
    rw [hdeclared]
    by_cases hhere : n = d ∧ other = name
    · obtain ⟨rfl, rfl⟩ := hhere
      rw [hfind]
      rfl
    · rw [if_neg hhere, Option.or_none]
  | none =>
    obtain ⟨after, hafter, hsize, hshape, hfound⟩ :=
      declare_of_eq_none (by rw [h.size]; exact hd) hfind e
    rw [perform, hafter]
    refine ⟨by rw [hcount, hsize, h.size], by rw [hshape, h.root], ?_, ?_⟩
    · intro n o ho
      rw [hopenings] at ho
      simpa only [hshape] using h.opened n o ho
    · intro n other
      rw [hfound, hdeclared]
      by_cases hhere : n = d ∧ other = name
      · rw [if_pos hhere, if_pos hhere, hhere.1, hhere.2, hfind]
        rfl
      · rw [if_neg hhere, if_neg hhere, Option.or_none]

end Records

/-- After every history the tree records what was opened and declared in it. -/
theorem records_grown {history : List Operation} (h : Legal history) :
    Records history (grown history) := by
  induction h with
  | start => exact records_root
  | @next history op _ htarget ih =>
    rw [grown, List.foldl_append]
    cases op with
    | child outer inLoop owner? => exact ih.child htarget inLoop owner?
    | declare scope name e => exact ih.declare htarget name e

/-! ## Ways to the root -/

theorem chain_eq {t : ScopeTree} {n : Nat} {node : ScopeNode} (h : t.nodes[n]? = some node)
    (hparent : ∀ p ∈ node.parent?, p < n) :
    t.chain n = node.scope :: (node.parent?.map t.chain).getD [] := by
  rw [chain, h]
  obtain ⟨scope, _ | p⟩ := node
  · rfl
  · exact if_pos (hparent p rfl)

theorem resolve?_cons (s : Scope) (chain : Chain) (name : String) :
    Chain.resolve? (s :: chain) name = (s.find? name).or (Chain.resolve? chain name) := by
  rw [Chain.resolve?, List.findSome?_cons]
  cases s.find? name <;> rfl

theorem exists_of_shape? {t : ScopeTree} {n : Nat} {parent? : Option Nat} {owner? : Option Entity}
    (h : t.shape? n = some (parent?, owner?)) :
    ∃ scope, t.nodes[n]? = some ⟨scope, parent?⟩ ∧ scope.owner? = owner? := by
  rw [shape?, Option.map_eq_some_iff] at h
  obtain ⟨⟨scope, parent⟩, hnode, hshape⟩ := h
  cases hshape
  exact ⟨scope, hnode, rfl⟩

theorem find?_eq {t : ScopeTree} {n : Nat} {node : ScopeNode} (h : t.nodes[n]? = some node)
    (name : String) : t.find? n name = node.scope.find? name := by
  rw [find?, scope?, h]
  rfl

namespace Records

variable {history : List Operation} {t : ScopeTree} {n : Nat} {path : List Nat}

/-- From every scope there is a way to the root. -/
theorem exists_path (h : Records history t) (hn : n < scopeCount history) :
    ∃ path, Path history n path := by
  induction n using Nat.strongRecOn with
  | ind n ih =>
    cases n with
    | zero => exact ⟨_, .root⟩
    | succ n =>
      have hopening : n < (openings history).length := Nat.lt_of_succ_lt_succ hn
      have ho := List.getElem?_eq_getElem hopening
      obtain ⟨hle, -⟩ := h.opened n _ ho
      obtain ⟨path, hpath⟩ := ih _ (Nat.lt_succ_of_le hle) (Nat.lt_of_le_of_lt hle
        (Nat.lt_of_succ_lt hn))
      exact ⟨_, .inside ho hpath⟩

/-- A name stands for what the first scope on the way to the root declares. -/
theorem resolve?_chain (h : Records history t) (hpath : Path history n path) (name : String) :
    (t.chain n).resolve? name = path.findSome? fun k => declaredIn history k name := by
  induction hpath with
  | root =>
    obtain ⟨scope, hnode, -⟩ := exists_of_shape? h.root
    rw [chain_eq hnode (by simp), resolve?_cons, ← find?_eq hnode, h.declared,
      List.findSome?_cons]
    cases declaredIn history 0 name <;> rfl
  | @inside n o path ho _ ih =>
    obtain ⟨hle, _, _, _, hshape⟩ := h.opened n o ho
    obtain ⟨scope, hnode, -⟩ := exists_of_shape? hshape
    rw [chain_eq hnode (by simpa using Nat.lt_succ_of_le hle), resolve?_cons, ← find?_eq hnode,
      h.declared, List.findSome?_cons]
    cases declaredIn history (n + 1) name with
    | some e => rfl
    | none => exact ih

/-- A scope has no owner if no scope on the way to the root was opened with one. -/
theorem owner?_isNone (h : Records history t) (hpath : Path history n path) :
    ∃ s, t.scope? n = some s ∧
      (s.strict = true ↔ ∀ k ∈ path, openedWith history k = none) := by
  induction hpath with
  | root =>
    obtain ⟨scope, hnode, howner⟩ := exists_of_shape? h.root
    refine ⟨scope, by rw [scope?, hnode]; rfl, ?_⟩
    simp [Scope.strict, howner, openedWith]
  | @inside n o path ho _ ih =>
    obtain ⟨-, parent?, owner?, houter, hshape⟩ := h.opened n o ho
    obtain ⟨scope, hnode, howner⟩ := exists_of_shape? hshape
    obtain ⟨outer, hscope, hiff⟩ := ih
    obtain ⟨around, haround, rfl⟩ := exists_of_shape? houter
    have hsame : around = outer := by simpa [scope?, haround] using hscope
    refine ⟨scope, by rw [scope?, hnode]; rfl, ?_⟩
    rw [List.forall_mem_cons, ← hiff, ← hsame, openedWith, ho, Scope.strict, howner]
    simp [Scope.strict]

end Records

/-! ## Declarations as seen from other scopes -/

/-- A declaration of a name in the scope `d` is seen from the start of a way to the
root: the way leads through `d`, and no scope before it declares the name. -/
def Reaches (history : List Operation) (name : String) (path : List Nat) (d : Nat) : Prop :=
  d ∈ path ∧ ∀ k ∈ path.takeWhile (· ≠ d), declaredIn history k name = none

/-- The first scope on a way to the root that declares a name. -/
def answering (history : List Operation) (path : List Nat) (name : String) : Option Nat :=
  path.find? fun k => (declaredIn history k name).isSome

section Declaration

variable {history : List Operation} {d : Nat} {name : String}

theorem reaches_cons {k : Nat} {rest : List Nat} :
    Reaches history name (k :: rest) d ↔
      k = d ∨ declaredIn history k name = none ∧ Reaches history name rest d := by
  by_cases hk : k = d
  · simp [Reaches, hk]
  · have hdk : ¬ d = k := fun h => hk h.symm
    simp [Reaches, hk, hdk, and_left_comm]

theorem declaredIn_declare (history : List Operation) (d : Nat) (name : String) (e : Entity)
    (k : Nat) (other : String) :
    declaredIn (history ++ [.declare d name e]) k other =
      (declaredIn history k other).or (if k = d ∧ other = name then some e else none) :=
  declaredIn_append ..

/-- A declaration says nothing about other scopes and other names. -/
theorem declaredIn_declare_of_not (e : Entity) {k : Nat} {other : String}
    (h : ¬ (k = d ∧ other = name)) :
    declaredIn (history ++ [.declare d name e]) k other = declaredIn history k other := by
  rw [declaredIn_declare, if_neg h, Option.or_none]

theorem declaredIn_declare_self (e : Entity) (h : declaredIn history d name = none) :
    declaredIn (history ++ [.declare d name e]) d name = some e := by
  rw [declaredIn_declare, h, if_pos ⟨rfl, rfl⟩, Option.none_or]

/-- What a name stands for after it was declared in one more scope. -/
theorem findSome?_declared (hfree : declaredIn history d name = none) (e : Entity)
    (path : List Nat) :
    (Reaches history name path d →
      (path.findSome? fun k => declaredIn (history ++ [.declare d name e]) k name) = some e) ∧
      (¬ Reaches history name path d →
        (path.findSome? fun k => declaredIn (history ++ [.declare d name e]) k name) =
          path.findSome? fun k => declaredIn history k name) := by
  induction path with
  | nil => simp [Reaches]
  | cons k rest ih =>
    rw [reaches_cons, List.findSome?_cons, List.findSome?_cons]
    by_cases hk : k = d
    · rw [hk, declaredIn_declare_self e hfree]
      exact ⟨fun _ => rfl, fun h => absurd (.inl rfl) h⟩
    · rw [declaredIn_declare_of_not e fun h => hk h.1]
      cases declaredIn history k name with
      | some x => simp [hk]
      | none => simpa [hk] using ih

/-- Another scope answers exactly where the declaration is seen. -/
theorem answering_declared (hfree : declaredIn history d name = none) (e : Entity)
    (path : List Nat) :
    answering (history ++ [.declare d name e]) path name ≠ answering history path name ↔
      Reaches history name path d := by
  induction path with
  | nil => simp [answering, Reaches]
  | cons k rest ih =>
    rw [reaches_cons, answering, answering, List.find?_cons, List.find?_cons]
    by_cases hk : k = d
    · -- The scope itself answers now, and did not before.
      have hbefore : rest.find? (fun k => (declaredIn history k name).isSome) ≠ some d := by
        intro hfound
        have hsome := List.find?_some hfound
        simp [hfree] at hsome
      simpa [hk, declaredIn_declare_self e hfree, hfree] using Ne.symm hbefore
    · rw [declaredIn_declare_of_not e fun h => hk h.1]
      cases declaredIn history k name with
      | some x => simp [hk]
      | none => simpa [hk, answering] using ih

end Declaration

/-! ## All scopes after all histories -/

theorem resolve_eq_ok {t : ScopeTree} {n : Nat} {name : String} {e : Entity} :
    t.resolve n name = .ok e ↔ (t.chain n).resolve? name = some e := by
  rw [resolve]
  cases (t.chain n).resolve? name <;> simp

theorem resolve_eq_error {t : ScopeTree} {n : Nat} {name : String} :
    (∃ fault, t.resolve n name = .error fault) ↔ (t.chain n).resolve? name = none := by
  rw [resolve]
  cases (t.chain n).resolve? name <;> simp

theorem grown_append (history : List Operation) (op : Operation) :
    grown (history ++ [op]) = (grown history).perform op := by
  rw [grown, List.foldl_append]
  rfl

/-- A declaration opens nothing. -/
theorem Path.declare {history : List Operation} {n : Nat} {path : List Nat}
    (h : Path history n path) (d : Nat) (name : String) (e : Entity) :
    Path (history ++ [.declare d name e]) n path := by
  induction h with
  | root => exact .root
  | inside ho _ ih =>
    refine .inside ?_ ih
    rw [openings_append, Operation.opening?, Option.toList_none, List.append_nil]
    exact ho

/-- What a scope answers after a successful declaration in a scope. -/
theorem resolve_declared {history : List Operation} (hlegal : Legal history) {c d : Nat}
    {path : List Nat} (hpath : Path history c path) (hd : d < scopeCount history) {name : String}
    (hfree : declaredIn history d name = none) (e : Entity) (other : String) :
    (other = name ∧ Reaches history name path d →
      (grown (history ++ [.declare d name e])).resolve c other = .ok e) ∧
    (¬ (other = name ∧ Reaches history name path d) →
      (grown (history ++ [.declare d name e])).resolve c other =
        (grown history).resolve c other) := by
  have hbefore := (records_grown hlegal).resolve?_chain hpath other
  have hlegal' : Legal (history ++ [.declare d name e]) := hlegal.next hd
  have hafter := (records_grown hlegal').resolve?_chain (hpath.declare d name e) other
  refine ⟨?_, ?_⟩
  · rintro ⟨rfl, hreaches⟩
    rw [resolve_eq_ok, hafter]
    exact (findSome?_declared hfree e path).1 hreaches
  · intro hunseen
    have hsame : (path.findSome? fun k => declaredIn (history ++ [.declare d name e]) k other) =
        path.findSome? fun k => declaredIn history k other := by
      by_cases hname : other = name
      · subst hname
        exact (findSome?_declared hfree e path).2 fun h => hunseen ⟨rfl, h⟩
      · congr 1
        funext k
        exact declaredIn_declare_of_not e fun h => hname h.2
    rw [resolve, resolve, hafter, hsame, hbefore]

end ScopeTree

open ScopeTree in
/-- After every history of openings and declarations, a scope resolves a name to what
the first scope on its way to the root declares, and fails if none does; it is strict
if no scope on that way was opened with an owner.  A declaration succeeds if its scope
does not declare the name; then that name is resolved to the new entity, by another
scope than before, wherever the declaration is seen, and nothing else changes.  A
declaration that fails changes nothing at all. -/
theorem scope_operations_act_locally {history : List Operation} (hlegal : Legal history) {c : Nat}
    (hc : c < scopeCount history) :
    ∃ path, Path history c path ∧
      (∀ name e, (grown history).resolve c name = .ok e ↔
        (path.findSome? fun k => declaredIn history k name) = some e) ∧
      (∀ name, (∃ fault, (grown history).resolve c name = .error fault) ↔
        ∀ k ∈ path, declaredIn history k name = none) ∧
      (∃ s, (grown history).scope? c = some s ∧
        (s.strict = true ↔ ∀ k ∈ path, openedWith history k = none)) ∧
      ∀ d < scopeCount history, ∀ name e,
        (declaredIn history d name = none →
          ∃ after, (grown history).declare d name e = .ok after ∧
            after = grown (history ++ [.declare d name e]) ∧
            ∀ other,
              (other = name ∧ Reaches history name path d → after.resolve c other = .ok e) ∧
              (¬ (other = name ∧ Reaches history name path d) →
                after.resolve c other = (grown history).resolve c other) ∧
              (answering (history ++ [.declare d name e]) path other ≠
                answering history path other ↔ other = name ∧ Reaches history name path d)) ∧
        (declaredIn history d name ≠ none →
          (grown history).declare d name e = .error (.alreadyDeclared name) ∧
            grown (history ++ [.declare d name e]) = grown history) := by
  have hrecords := records_grown hlegal
  obtain ⟨path, hpath⟩ := hrecords.exists_path hc
  refine ⟨path, hpath, ?_, ?_, hrecords.owner?_isNone hpath, ?_⟩
  · intro name e
    rw [resolve_eq_ok, hrecords.resolve?_chain hpath]
  · intro name
    rw [resolve_eq_error, hrecords.resolve?_chain hpath, List.findSome?_eq_none_iff]
  · intro d hd name e
    have hfind := hrecords.declared d name
    refine ⟨?_, ?_⟩
    · intro hfree
      obtain ⟨after, hafter, -⟩ :=
        declare_of_eq_none (by rw [hrecords.size]; exact hd) (hfind.trans hfree) e
      have hgrown : after = grown (history ++ [.declare d name e]) := by
        rw [grown_append, perform, hafter]
      refine ⟨after, hafter, hgrown, fun other => ?_⟩
      obtain ⟨hseen, hunseen⟩ := resolve_declared hlegal hpath hd hfree e other
      rw [hgrown]
      refine ⟨hseen, hunseen, ?_⟩
      by_cases hname : other = name
      · subst hname
        rw [answering_declared hfree e path]
        exact (and_iff_right rfl).symm
      · simp [answering, hname, declaredIn_declare_of_not e fun h => hname h.2]
    · intro htaken
      have hfail := declare_of_isSome (e := e)
        (by rw [hfind]; exact Option.isSome_iff_ne_none.mpr htaken)
      exact ⟨hfail, by rw [grown_append, perform, hfail]⟩

/-- The body of a function with a loop in it, both opened before anything is declared;
then one name is declared in the root and in the loop. -/
def nestedHistory (outer inner : Entity) : List ScopeTree.Operation :=
  [.child 0 false (some (.function ⟨0, "f", []⟩)), .child 1 true none, .declare 0 "x" outer,
    .declare 2 "x" inner]

open ScopeTree in
theorem nestedHistory_acts_locally : ∃ outer inner between : Entity, outer ≠ inner ∧
    Legal (nestedHistory outer inner) ∧
    (grown (nestedHistory outer inner)).resolve 1 "x" = .ok outer ∧
    (grown (nestedHistory outer inner)).resolve 2 "x" = .ok inner ∧
    ∃ after, (grown (nestedHistory outer inner)).declare 1 "x" between = .ok after ∧
      after.resolve 1 "x" = .ok between ∧ after.resolve 2 "x" = .ok inner := by
  let outer : Entity := .var ⟨1, "x", .int⟩
  let inner : Entity := .var ⟨2, "x", .string⟩
  let between : Entity := .var ⟨3, "x", .boolean⟩
  have hlegal : Legal (nestedHistory outer inner) :=
    (((Legal.start.next (by decide)).next (by decide)).next (by decide)).next (by decide)
  obtain ⟨body, hbody, hresolveBody, -, -, hdeclareBody⟩ :=
    scope_operations_act_locally hlegal (c := 1) (by decide)
  obtain ⟨loop, hloop, hresolveLoop, -, -, hdeclareLoop⟩ :=
    scope_operations_act_locally hlegal (c := 2) (by decide)
  have hbodyPath : body = [1, 0] := by
    rcases hbody with _ | ⟨ho, hroot⟩
    cases ho
    cases hroot
    rfl
  have hloopPath : loop = [2, 1, 0] := by
    rcases hloop with _ | ⟨ho, houter⟩
    cases ho
    rcases houter with _ | ⟨ho, hroot⟩
    cases ho
    cases hroot
    rfl
  subst hbodyPath hloopPath
  obtain ⟨after, hafter, -, hbodyEffect⟩ := (hdeclareBody 1 (by decide) "x" between).1 rfl
  obtain ⟨after', hafter', -, hloopEffect⟩ := (hdeclareLoop 1 (by decide) "x" between).1 rfl
  obtain rfl : after = after' := Except.ok.inj (hafter.symm.trans hafter')
  have hinner := (hresolveLoop "x" inner).mpr rfl
  have hunseen : ¬ ("x" = "x" ∧ Reaches (nestedHistory outer inner) "x" [2, 1, 0] 1) := by
    rintro ⟨-, -, hnone⟩
    cases hnone 2 (by decide)
  refine ⟨outer, inner, between, by decide, hlegal, (hresolveBody "x" outer).mpr rfl, hinner, after,
    hafter, (hbodyEffect "x").1 ⟨rfl, by decide, by simp⟩, ?_⟩
  rw [(hloopEffect "x").2.1 hunseen, hinner]

end Squishc
