import Mathlib.Data.List.Infix
import Squishc.Proofs.ObjectTree

/-!
# The order of a listing

A listing has a line for every node of a tree and for every entity that occurs in it.
A node is known by its place, which is the way to it from the top; an entity is the same
wherever it occurs.  The lines stand in the order in which a walk through the tree meets
nodes and entities for the first time: a node before its parts, a function before its
parameters.

Main results:

- Theorem `mem_order_iff`: a walk meets exactly what the tree reaches.
- Theorem `listingLines_eq`: the lines of a listing are those of the keys in that order,
  with tags counted from one.
-/

namespace Squishc.Listing

/-! ## Places -/

/-- The contents right below some content. -/
def Content.inner : Content → List Content
  | .atom _ | .entity _ => []
  | .list items => items
  | .node _ fields => fields

/-- The content at a place. -/
def Content.at? : Content → List Nat → Option Content
  | c, [] => some c
  | c, i :: path => c.inner[i]?.bind (fun d => d.at? path)

theorem at?_append (c : Content) (path rest : List Nat) :
    c.at? (path ++ rest) = (c.at? path).bind (fun d => d.at? rest) := by
  induction path generalizing c with
  | nil => rfl
  | cons i path ih =>
    rw [List.cons_append, Content.at?, Content.at?]
    cases c.inner[i]? with
    | none => rfl
    | some d => exact ih d

theorem at?_append_singleton {root c : Content} {path : List Nat} (h : root.at? path = some c)
    (i : Nat) : root.at? (path ++ [i]) = c.inner[i]? := by
  rw [at?_append, h]
  simp [Content.at?]

/-- The contents at the places below a place, from the given one on. -/
def Content.Holds (root : Content) (path : List Nat) (i : Nat) (cs : List Content) : Prop :=
  ∀ j c, cs[j]? = some c → root.at? (path ++ [i + j]) = some c

theorem holds_inner {root c : Content} {path : List Nat} (h : root.at? path = some c) :
    root.Holds path 0 c.inner := by
  intro j d hd
  rw [Nat.zero_add, at?_append_singleton h, hd]

theorem Content.Holds.head {root c : Content} {path : List Nat} {i : Nat} {rest : List Content}
    (h : root.Holds path i (c :: rest)) : root.at? (path ++ [i]) = some c := h 0 c rfl

theorem Content.Holds.tail {root c : Content} {path : List Nat} {i : Nat} {rest : List Content}
    (h : root.Holds path i (c :: rest)) : root.Holds path (i + 1) rest := by
  intro j d hd
  rw [show i + 1 + j = i + (j + 1) by omega]
  exact h (j + 1) d hd

/-! ## Keys -/

/-- What has a line of its own: a node, known by its place, or an entity. -/
inductive Key where
  | place (path : List Nat)
  | entity (e : Entity)
deriving DecidableEq

/-- A tree reaches its nodes, the entities that occur in it, and the parameters of the
functions among these. -/
inductive Content.Reaches (root : Content) : Key → Prop where
  | node {path : List Nat} {kind : String} {fields : List Content}
      (h : root.at? path = some (.node kind fields)) : Reaches root (.place path)
  | entity {path : List Nat} {e : Entity} (h : root.at? path = some (.entity e)) :
      Reaches root (.entity e)
  | param {f : Function} {v : Variable} (h : Reaches root (.entity (.function f)))
      (hv : v ∈ f.params) : Reaches root (.entity (.var v))

/-- What a walk meets at an entity. -/
def entityVisits : Entity → List Key
  | .var v => [.entity (.var v)]
  | .function f => .entity (.function f) :: f.params.map (fun v => .entity (.var v))

mutual

/-- What a walk meets at a place with the given content. -/
def Content.visits (path : List Nat) : Content → List Key
  | .atom _ => []
  | .entity e => entityVisits e
  | .list items => Content.visitsAll path 0 items
  | .node _ fields => .place path :: Content.visitsAll path 0 fields

/-- What a walk meets at the places below a place, from the given one on. -/
def Content.visitsAll (path : List Nat) (i : Nat) : List Content → List Key
  | [] => []
  | c :: rest => c.visits (path ++ [i]) ++ Content.visitsAll path (i + 1) rest

end

/-- The order in which a walk first meets what has a line. -/
def Content.order (root : Content) : List Key := (root.visits []).eraseDups

/-- The tag of a key is its position, counted from one. -/
def tag (order : List Key) (k : Key) : Nat := order.idxOf k + 1

/-! ## Views -/

mutual

/-- How a field shows content at a place: a node or an entity by a reference to its tag. -/
def Content.view (tag : Key → Nat) (path : List Nat) : Content → String
  | .atom a => a.text
  | .entity e => reference (tag (.entity e))
  | .list items => bracketed (Content.views tag path 0 items)
  | .node _ _ => reference (tag (.place path))

/-- How fields show contents at the places below a place, from the given one on. -/
def Content.views (tag : Key → Nat) (path : List Nat) (i : Nat) : List Content → List String
  | [] => []
  | c :: rest => c.view tag (path ++ [i]) :: Content.views tag path (i + 1) rest

end

/-- What a key stands for: an object of some kind, with contents below a place. -/
structure Object where
  kind : String
  path : List Nat
  fields : List Content

/-- The object of a key in a tree. -/
def Content.object (root : Content) : Key → Object
  | .place path =>
    match root.at? path with
    | some (.node kind fields) => ⟨kind, path, fields⟩
    | _ => ⟨"", path, []⟩
  | .entity e => ⟨e.kind, [], e.fields⟩

/-- How the fields of an object show their contents. -/
def Object.views (o : Object) (tag : Key → Nat) : List String := Content.views tag o.path 0 o.fields

/-- The line of a key: its tag, and the kind and the fields of its object. -/
def Content.line (root : Content) (tag : Key → Nat) (k : Key) : String :=
  Listing.line (tag k) (root.object k).kind
    ((fieldNames (root.object k).kind).zip ((root.object k).views tag))

/-! ## What a walk meets -/

theorem mem_visitsAll {path : List Nat} {k : Key} : ∀ {i : Nat} {cs : List Content},
    k ∈ Content.visitsAll path i cs ↔
      ∃ (j : Nat) (c : Content), cs[j]? = some c ∧ k ∈ c.visits (path ++ [i + j])
  | _, [] => by simp [Content.visitsAll]
  | i, c :: rest => by
    rw [Content.visitsAll, List.mem_append, mem_visitsAll]
    constructor
    · rintro (h | ⟨j, d, hd, h⟩)
      · exact ⟨0, c, rfl, h⟩
      · exact ⟨j + 1, d, hd, by rwa [show i + (j + 1) = i + 1 + j by omega]⟩
    · rintro ⟨j, d, hd, h⟩
      cases j with
      | zero =>
        cases hd
        exact .inl h
      | succ j => exact .inr ⟨j, d, hd, by rwa [show i + 1 + j = i + (j + 1) by omega]⟩

mutual

/-- A walk meets nodes at places below the one it starts from. -/
theorem path_prefix_of_mem_visits : ∀ {c : Content} {path q : List Nat},
    .place q ∈ c.visits path → path <+: q
  | .atom _, _, _, h => by simp [Content.visits] at h
  | .entity e, _, _, h => by cases e <;> simp [Content.visits, entityVisits] at h
  | .list _, _, _, h => path_prefix_of_mem_visitsAll h
  | .node _ _, path, _, h => by
    rw [Content.visits, List.mem_cons, Key.place.injEq] at h
    rcases h with rfl | h
    · exact List.prefix_rfl
    · exact path_prefix_of_mem_visitsAll h

theorem path_prefix_of_mem_visitsAll : ∀ {cs : List Content} {path q : List Nat} {i : Nat},
    .place q ∈ Content.visitsAll path i cs → path <+: q
  | [], _, _, _, h => by simp [Content.visitsAll] at h
  | _ :: _, path, _, i, h => by
    rw [Content.visitsAll, List.mem_append] at h
    rcases h with h | h
    · exact (List.prefix_append path [i]).trans (path_prefix_of_mem_visits h)
    · exact path_prefix_of_mem_visitsAll h

end

/-- The parameters of every function in a list of keys are in it too. -/
def Closed (ks : List Key) : Prop :=
  ∀ f v, .entity (.function f) ∈ ks → v ∈ f.params → .entity (.var v) ∈ ks

mutual

/-- A walk that meets a function meets its parameters. -/
theorem closed_visits : ∀ (c : Content) (path : List Nat), Closed (c.visits path)
  | .atom _, _ => by simp [Content.visits, Closed]
  | .entity (.var _), _ => by simp [Content.visits, entityVisits, Closed]
  | .entity (.function f), _ => by
    intro g v hg hv
    simp only [Content.visits, entityVisits, List.mem_cons, Key.entity.injEq,
      Entity.function.injEq, List.mem_map, reduceCtorEq, and_false, exists_false, or_false] at hg
    subst hg
    exact List.mem_cons_of_mem _ (List.mem_map.mpr ⟨v, hv, rfl⟩)
  | .list items, path => closed_visitsAll items path 0
  | .node _ fields, path => by
    intro f v hf hv
    rw [Content.visits, List.mem_cons] at hf ⊢
    rcases hf with hf | hf
    · cases hf
    · exact .inr (closed_visitsAll fields path 0 f v hf hv)

theorem closed_visitsAll : ∀ (cs : List Content) (path : List Nat) (i : Nat),
    Closed (Content.visitsAll path i cs)
  | [], _, _ => by simp [Content.visitsAll, Closed]
  | c :: rest, path, i => by
    intro f v hf hv
    rw [Content.visitsAll, List.mem_append] at hf ⊢
    exact hf.imp (closed_visits c (path ++ [i]) f v · hv)
      (closed_visitsAll rest path (i + 1) f v · hv)

end

section

variable {root : Content}

mutual

theorem reaches_of_mem_visits {k : Key} : ∀ {c : Content} {path : List Nat},
    root.at? path = some c → k ∈ c.visits path → root.Reaches k
  | .atom _, _, _, h => by simp [Content.visits] at h
  | .entity (.var v), _, hat, h => by
    simp only [Content.visits, entityVisits, List.mem_singleton] at h
    exact h ▸ .entity hat
  | .entity (.function f), _, hat, h => by
    simp only [Content.visits, entityVisits, List.mem_cons, List.mem_map] at h
    rcases h with rfl | ⟨v, hv, rfl⟩
    · exact .entity hat
    · exact .param (.entity hat) hv
  | .list _, _, hat, h => reaches_of_mem_visitsAll (holds_inner hat) h
  | .node _ _, _, hat, h => by
    rw [Content.visits, List.mem_cons] at h
    rcases h with rfl | h
    · exact .node hat
    · exact reaches_of_mem_visitsAll (holds_inner hat) h

theorem reaches_of_mem_visitsAll {k : Key} : ∀ {cs : List Content} {path : List Nat} {i : Nat},
    root.Holds path i cs → k ∈ Content.visitsAll path i cs → root.Reaches k
  | [], _, _, _, h => by simp [Content.visitsAll] at h
  | _ :: _, _, _, hat, h => by
    rw [Content.visitsAll, List.mem_append] at h
    exact h.elim (reaches_of_mem_visits hat.head) (reaches_of_mem_visitsAll hat.tail)

end

/-- What a walk meets at a place below another it meets from there too. -/
theorem visits_subset_of_at? {d : Content} : ∀ {c : Content} (path : List Nat) {q : List Nat},
    c.at? q = some d → d.visits (path ++ q) ⊆ c.visits path
  | c, path, [], h => by
    cases h
    rw [List.append_nil]
    exact List.Subset.refl _
  | c, path, i :: q, h => by
    rcases Option.bind_eq_some_iff.mp h with ⟨e, he, hd⟩
    have hsub := visits_subset_of_at? (path ++ [i]) hd
    rw [List.append_assoc, List.singleton_append] at hsub
    refine List.Subset.trans hsub fun k hk => ?_
    have hall : k ∈ Content.visitsAll path 0 c.inner :=
      mem_visitsAll.mpr ⟨i, e, he, by rwa [Nat.zero_add]⟩
    cases c with
    | atom _ | entity _ => simp [Content.inner] at he
    | list _ => exact hall
    | node _ _ => exact List.mem_cons_of_mem _ hall

theorem mem_visits_of_reaches {k : Key} (h : root.Reaches k) : k ∈ root.visits [] := by
  induction h with
  | node h => exact visits_subset_of_at? [] h (List.mem_cons_self ..)
  | @entity _ e h =>
    refine visits_subset_of_at? [] h ?_
    cases e <;> exact List.mem_cons_self ..
  | param _ hv ih => exact closed_visits root [] _ _ ih hv

/-- A walk meets exactly what the tree reaches. -/
theorem mem_order_iff {k : Key} : k ∈ root.order ↔ root.Reaches k := by
  rw [Content.order, List.mem_eraseDups]
  exact ⟨reaches_of_mem_visits rfl, mem_visits_of_reaches⟩

end

/-! ## Meeting keys one after another -/

/-- The keys that were met, in order, after one more is met. -/
def enter (ks : List Key) (k : Key) : List Key := if k ∈ ks then ks else ks ++ [k]

/-- The keys that were met after some more are met. -/
def enterAll (ks vs : List Key) : List Key := vs.foldl enter ks

theorem enter_of_mem {ks : List Key} {k : Key} (h : k ∈ ks) : enter ks k = ks := if_pos h

theorem enter_of_not_mem {ks : List Key} {k : Key} (h : k ∉ ks) : enter ks k = ks ++ [k] :=
  if_neg h

@[simp] theorem enterAll_nil (ks : List Key) : enterAll ks [] = ks := rfl

@[simp] theorem enterAll_cons (ks : List Key) (k : Key) (vs : List Key) :
    enterAll ks (k :: vs) = enterAll (enter ks k) vs := rfl

@[simp] theorem enterAll_append (ks vs vs' : List Key) :
    enterAll ks (vs ++ vs') = enterAll (enterAll ks vs) vs' := List.foldl_append

/-- The keys that are new are those not met before, each where it comes first. -/
theorem enterAll_eq (ks vs : List Key) :
    enterAll ks vs = ks ++ (vs.filter (fun k => k ∉ ks)).eraseDups := by
  induction vs generalizing ks with
  | nil => simp
  | cons k vs ih =>
    rw [enterAll_cons]
    by_cases h : k ∈ ks
    · rw [enter_of_mem h, ih, List.filter_cons_of_neg (by simpa using h)]
    · rw [enter_of_not_mem h, ih, List.filter_cons_of_pos (by simpa using h), List.eraseDups_cons,
        List.filter_filter, List.append_assoc, List.singleton_append]
      congr 4
      funext a
      by_cases ha : a = k <;> simp [ha, h]

theorem enterAll_nil_eq (vs : List Key) : enterAll [] vs = vs.eraseDups := by
  simp [enterAll_eq]

theorem prefix_enterAll (ks vs : List Key) : ks <+: enterAll ks vs := by
  rw [enterAll_eq]
  exact List.prefix_append _ _

theorem mem_enterAll {ks vs : List Key} {k : Key} : k ∈ enterAll ks vs ↔ k ∈ ks ∨ k ∈ vs := by
  rw [enterAll_eq]
  by_cases h : k ∈ ks <;> simp [h]

theorem enterAll_of_subset {ks vs : List Key} (h : vs ⊆ ks) : enterAll ks vs = ks := by
  rw [enterAll_eq, List.filter_eq_nil_iff.mpr (fun k hk => by simpa using h hk)]
  simp

theorem nodup_enterAll {ks : List Key} (h : ks.Nodup) (vs : List Key) : (enterAll ks vs).Nodup := by
  induction vs generalizing ks with
  | nil => exact h
  | cons k vs ih =>
    refine ih ?_
    by_cases hk : k ∈ ks
    · rwa [enter_of_mem hk]
    · rw [enter_of_not_mem hk]
      exact List.nodup_append.mpr ⟨h, List.nodup_singleton k, by rintro a ha _ hb rfl; simp_all⟩

theorem nodup_order (root : Content) : root.order.Nodup := by
  rw [Content.order, ← enterAll_nil_eq]
  exact nodup_enterAll List.nodup_nil _

theorem closed_enterAll {ks vs : List Key} (h : Closed ks) (h' : Closed vs) :
    Closed (enterAll ks vs) := by
  intro f v hf hv
  rw [mem_enterAll] at hf ⊢
  exact hf.imp (h f v · hv) (h' f v · hv)

/-! ## Tags -/

theorem tag_of_initial {ks order : List Key} (h : ks <+: order) {k : Key} (hk : k ∈ ks) :
    tag order k = tag ks k := by
  rcases h with ⟨rest, rfl⟩
  rw [tag, tag, List.idxOf_append_of_mem hk]

/-- A key that is met for the first time gets the next free tag. -/
theorem tag_of_new {ks order : List Key} {k : Key} (hk : k ∉ ks) (h : ks ++ [k] <+: order) :
    tag order k = ks.length + 1 := by
  rw [tag_of_initial h (by simp), tag, List.idxOf_append_of_notMem hk, List.idxOf_cons_self,
    Nat.add_zero]

/-- A state in which the given keys were met: the next free number, and the number of
every entity among them. -/
structure Counts (s : State) (ks : List Key) : Prop where
  next : s.next = ks.length + 1
  find? : ∀ e, s.find? e = if .entity e ∈ ks then some (tag ks (.entity e)) else none

theorem counts_initial : Counts .initial [] := ⟨rfl, fun _ => rfl⟩

section

variable {s : State} {ks : List Key}

/-- Taking a number for a node. -/
theorem Counts.step (h : Counts s ks) (path : List Nat) : Counts s.step (ks ++ [.place path]) where
  next := by simp [State.step, h.next]
  find? e := by
    have hfind := h.find? e
    by_cases he : .entity e ∈ ks
    · rw [if_pos he] at hfind
      rw [if_pos (by simp [he]), tag_of_initial (List.prefix_append ks _) he]
      exact hfind
    · rw [if_neg he] at hfind
      rw [if_neg (by simp [he])]
      exact hfind

theorem Counts.find?_of_mem (h : Counts s ks) {e : Entity} (he : .entity e ∈ ks) :
    s.find? e = some (tag ks (.entity e)) := by rw [h.find?, if_pos he]

theorem Counts.find?_of_not_mem (h : Counts s ks) {e : Entity} (he : .entity e ∉ ks) :
    s.find? e = none := by rw [h.find?, if_neg he]

theorem State.find?_enter (s : State) (e e' : Entity) :
    (s.enter e).find? e' = (s.find? e').or (if e = e' then some s.next else none) := by
  simp only [State.find?, State.enter, List.find?_append, List.find?_singleton]
  cases List.find? (fun known => decide (known.1 = e')) s.entities with
  | some known => rfl
  | none => by_cases h : e = e' <;> simp [h]

/-- Taking a number for an entity. -/
theorem Counts.enter (h : Counts s ks) {e : Entity} (he : .entity e ∉ ks) :
    Counts (s.enter e) (ks ++ [.entity e]) where
  next := by simp [State.enter, h.next]
  find? e' := by
    rw [State.find?_enter, h.find?]
    by_cases he' : .entity e' ∈ ks
    · have hmem : .entity e' ∈ ks ++ [Key.entity e] := List.mem_append_left _ he'
      rw [if_pos he', if_pos hmem, tag_of_initial (List.prefix_append ks _) he']
      rfl
    · rw [if_neg he']
      by_cases heq : e = e'
      · subst heq
        rw [if_pos rfl, if_pos (by simp), tag_of_new he List.prefix_rfl, h.next]
        rfl
      · rw [if_neg heq, if_neg (by simpa [he'] using Ne.symm heq)]
        rfl

end

/-! ## Lines -/

theorem views_entities (tag : Key → Nat) (path : List Nat) (i : Nat) (vs : List Variable) :
    Content.views tag path i (vs.map (fun v => .entity (.var v))) =
      vs.map (fun v => reference (tag (.entity (.var v)))) := by
  induction vs generalizing i with
  | nil => rfl
  | cons v rest ih => rw [List.map_cons, Content.views, ih, Content.view, List.map_cons]

theorem line_var (root : Content) (tag : Key → Nat) (v : Variable) :
    root.line tag (.entity (.var v)) =
      line (tag (.entity (.var v))) "Variable"
        [("name", Text.quoted v.name), ("type", v.type.name)] := rfl

theorem line_function (root : Content) (tag : Key → Nat) (f : Function) :
    root.line tag (.entity (.function f)) =
      line (tag (.entity (.function f))) "Function"
        [("name", Text.quoted f.name),
          ("params", bracketed (f.params.map (fun v => reference (tag (.entity (.var v))))))] := by
  rw [← views_entities tag ([] ++ [1]) 0]
  rfl

theorem line_place {root : Content} {path : List Nat} {kind : String} {fields : List Content}
    (h : root.at? path = some (.node kind fields)) (tag : Key → Nat) :
    root.line tag (.place path) =
      line (tag (.place path)) kind ((fieldNames kind).zip (Content.views tag path 0 fields)) := by
  simp only [Content.line, Content.object, h, Object.views]

/-- What listing adds when the given keys were met: it meets some more, and writes a line
for each of them that is new. -/
structure Adds (lineOf : Key → String) (ks vs : List Key) (lines : List String)
    (after : State) : Prop where
  counts : Counts after (enterAll ks vs)
  lines_eq : ∃ new, enterAll ks vs = ks ++ new ∧ lines = new.map lineOf

section

variable {lineOf : Key → String} {s after after' : State} {ks vs vs' : List Key}
  {lines lines' : List String}

theorem Adds.nothing (h : Counts s ks) (hvs : vs ⊆ ks) : Adds lineOf ks vs [] s := by
  rw [← enterAll_of_subset hvs] at h
  exact ⟨h, [], by rw [enterAll_of_subset hvs, List.append_nil], rfl⟩

theorem Adds.append (h : Adds lineOf ks vs lines after)
    (h' : Adds lineOf (enterAll ks vs) vs' lines' after') :
    Adds lineOf ks (vs ++ vs') (lines ++ lines') after' := by
  rcases h.lines_eq with ⟨new, hnew, rfl⟩
  rcases h'.lines_eq with ⟨new', hnew', rfl⟩
  refine ⟨by rw [enterAll_append]; exact h'.counts, new ++ new', ?_, List.map_append.symm⟩
  rw [enterAll_append, hnew', hnew, List.append_assoc]

/-- Meeting a new key writes its line, and then those of what is met behind it. -/
theorem Adds.cons {k : Key} (hk : k ∉ ks) (h : Adds lineOf (ks ++ [k]) vs lines after) :
    Adds lineOf ks (k :: vs) (lineOf k :: lines) after := by
  rcases h.lines_eq with ⟨new, hnew, rfl⟩
  rw [← enter_of_not_mem hk] at h hnew
  refine ⟨h.counts, k :: new, ?_, rfl⟩
  rw [enterAll_cons, hnew, enter_of_not_mem hk, List.append_assoc, List.singleton_append]

end

section

variable (root : Content) {order ks : List Key} {s : State}

theorem ofVariable_adds (hs : Counts s ks) (v : Variable)
    (horder : enterAll ks [.entity (.var v)] <+: order) :
    (ofVariable v s).view = reference (tag order (.entity (.var v))) ∧
      Adds (root.line (tag order)) ks [.entity (.var v)] (ofVariable v s).lines
        (ofVariable v s).state := by
  by_cases hv : .entity (.var v) ∈ ks
  · have hsub : [Key.entity (.var v)] ⊆ ks := by simpa using hv
    rw [enterAll_of_subset hsub] at horder
    rw [ofVariable, hs.find?_of_mem hv, tag_of_initial horder hv]
    exact ⟨rfl, .nothing hs hsub⟩
  · rw [enterAll_cons, enterAll_nil, enter_of_not_mem hv] at horder
    rw [ofVariable, hs.find?_of_not_mem hv, hs.next, ← tag_of_new hv horder, ← line_var root]
    exact ⟨rfl, .cons hv (.nothing (hs.enter hv) (List.nil_subset _))⟩

theorem ofVariables_adds (hs : Counts s ks) (vs : List Variable)
    (horder : enterAll ks (vs.map (fun v => .entity (.var v))) <+: order) :
    (ofVariables vs s).1 = vs.map (fun v => reference (tag order (.entity (.var v)))) ∧
      Adds (root.line (tag order)) ks (vs.map (fun v => .entity (.var v))) (ofVariables vs s).2.1
        (ofVariables vs s).2.2 := by
  induction vs generalizing s ks with
  | nil => exact ⟨rfl, .nothing hs (List.nil_subset _)⟩
  | cons v rest ih =>
    rw [List.map_cons, ← List.singleton_append, enterAll_append] at horder
    rcases ofVariable_adds root hs v ((prefix_enterAll _ _).trans horder) with ⟨hview, hfirst⟩
    rcases ih hfirst.counts horder with ⟨hviews, hrest⟩
    refine ⟨?_, hfirst.append hrest⟩
    simp only [ofVariables, List.map_cons, hview, hviews]

theorem ofFunction_adds (hs : Counts s ks) (hclosed : Closed ks) (f : Function)
    (horder : enterAll ks (entityVisits (.function f)) <+: order) :
    (ofFunction f s).view = reference (tag order (.entity (.function f))) ∧
      Adds (root.line (tag order)) ks (entityVisits (.function f)) (ofFunction f s).lines
        (ofFunction f s).state := by
  by_cases hf : .entity (.function f) ∈ ks
  · have hsub : entityVisits (.function f) ⊆ ks := by
      intro k hk
      simp only [entityVisits, List.mem_cons, List.mem_map] at hk
      rcases hk with rfl | ⟨v, hv, rfl⟩
      · exact hf
      · exact hclosed f v hf hv
    rw [enterAll_of_subset hsub] at horder
    rw [ofFunction, hs.find?_of_mem hf, tag_of_initial horder hf]
    exact ⟨rfl, .nothing hs hsub⟩
  · rw [entityVisits, enterAll_cons, enter_of_not_mem hf] at horder
    rcases ofVariables_adds root (hs.enter hf) f.params horder with ⟨hviews, hparams⟩
    have htag := tag_of_new hf ((prefix_enterAll _ _).trans horder)
    simp only [ofFunction, hs.find?_of_not_mem hf, hviews, hs.next, ← htag, ← line_function root]
    exact ⟨trivial, .cons hf hparams⟩

theorem ofEntity_adds (hs : Counts s ks) (hclosed : Closed ks) (e : Entity)
    (horder : enterAll ks (entityVisits e) <+: order) :
    (ofEntity e s).view = reference (tag order (.entity e)) ∧
      Adds (root.line (tag order)) ks (entityVisits e) (ofEntity e s).lines
        (ofEntity e s).state := by
  cases e with
  | var v => exact ofVariable_adds root hs v horder
  | function f => exact ofFunction_adds root hs hclosed f horder

end

/-! ## The lines of a tree -/

/-- No node at the given place or below it was met. -/
def Unmet (path : List Nat) (ks : List Key) : Prop := ∀ q, .place q ∈ ks → ¬ path <+: q

theorem Unmet.not_mem {path : List Nat} {ks : List Key} (h : Unmet path ks) : .place path ∉ ks :=
  fun hmem => h path hmem List.prefix_rfl

theorem Unmet.inner {path : List Nat} {ks : List Key} (h : Unmet path ks) (i : Nat) :
    Unmet (path ++ [i]) ks :=
  fun q hq hprefix => h q hq ((List.prefix_append path [i]).trans hprefix)

/-- Meeting a node meets nothing below it. -/
theorem Unmet.step {path : List Nat} {ks : List Key} {i : Nat} (h : Unmet (path ++ [i]) ks) :
    Unmet (path ++ [i]) (ks ++ [.place path]) := by
  intro q hq hprefix
  simp only [List.mem_append, List.mem_singleton, Key.place.injEq] at hq
  rcases hq with hq | rfl
  · exact h q hq hprefix
  · have hlength := hprefix.length_le
    rw [List.length_append, List.length_singleton] at hlength
    omega

/-- Walking below one place meets nothing below the next ones. -/
theorem Unmet.next {path : List Nat} {ks : List Key} {i j : Nat} {c : Content} (hij : i ≠ j)
    (h : Unmet (path ++ [j]) ks) : Unmet (path ++ [j]) (enterAll ks (c.visits (path ++ [i]))) := by
  intro q hq hprefix
  rcases mem_enterAll.mp hq with hq | hq
  · exact h q hq hprefix
  · have heq : path ++ [i] = path ++ [j] :=
      List.IsPrefix.eq_of_length
        (List.prefix_of_prefix_length_le (path_prefix_of_mem_visits hq) hprefix (by simp)) (by simp)
    simp at heq
    exact hij heq

section

variable {root : Content} {order : List Key}

mutual

/-- Listing content writes the lines of what it meets first, and shows the content by
the tags that this has in the end. -/
theorem ofContent_adds : ∀ (c : Content) {path : List Nat} {s : State} {ks : List Key},
    root.at? path = some c → Counts s ks → Closed ks → Unmet path ks →
    enterAll ks (c.visits path) <+: order →
    (ofContent c s).view = c.view (tag order) path ∧
      Adds (root.line (tag order)) ks (c.visits path) (ofContent c s).lines (ofContent c s).state
  | .atom a, _, _, _, _, hs, _, _, _ => ⟨rfl, .nothing hs (List.nil_subset _)⟩
  | .entity e, _, _, _, _, hs, hclosed, _, horder => ofEntity_adds root hs hclosed e horder
  | .list items, path, s, ks, hat, hs, hclosed, hunmet, horder => by
    rcases ofContents_adds items (holds_inner hat) hs hclosed (fun j _ => hunmet.inner j) horder
      with ⟨hviews, hitems⟩
    refine ⟨?_, hitems⟩
    rw [Content.view, ← hviews, ofContent]
  | .node kind fields, path, s, ks, hat, hs, hclosed, hunmet, horder => by
    rw [Content.visits, enterAll_cons, enter_of_not_mem hunmet.not_mem] at horder
    have htag := tag_of_new hunmet.not_mem ((prefix_enterAll _ _).trans horder)
    have hclosed' : Closed (ks ++ [.place path]) := by
      intro f v hf hv
      simp only [List.mem_append, List.mem_singleton, reduceCtorEq, or_false] at hf ⊢
      exact hclosed f v hf hv
    rcases ofContents_adds fields (holds_inner hat) (hs.step path) hclosed'
      (fun j _ => (hunmet.inner j).step) horder with ⟨hviews, hfields⟩
    simp only [ofContent, hviews, hs.next, ← htag, ← line_place hat]
    exact ⟨rfl, .cons hunmet.not_mem hfields⟩

theorem ofContents_adds : ∀ (cs : List Content) {path : List Nat} {i : Nat} {s : State}
    {ks : List Key}, root.Holds path i cs → Counts s ks → Closed ks →
    (∀ j, i ≤ j → Unmet (path ++ [j]) ks) → enterAll ks (Content.visitsAll path i cs) <+: order →
    (ofContents cs s).1 = Content.views (tag order) path i cs ∧
      Adds (root.line (tag order)) ks (Content.visitsAll path i cs) (ofContents cs s).2.1
        (ofContents cs s).2.2
  | [], _, _, _, _, _, hs, _, _, _ => ⟨rfl, .nothing hs (List.nil_subset _)⟩
  | c :: rest, path, i, s, ks, hat, hs, hclosed, hunmet, horder => by
    rw [Content.visitsAll, enterAll_append] at horder
    rcases ofContent_adds c hat.head hs hclosed (hunmet i le_rfl)
      ((prefix_enterAll _ _).trans horder) with ⟨hview, hfirst⟩
    rcases ofContents_adds rest hat.tail hfirst.counts
      (closed_enterAll hclosed (closed_visits c _))
      (fun j hj => (hunmet j (by omega)).next (by omega)) horder with ⟨hviews, hrest⟩
    refine ⟨?_, hfirst.append hrest⟩
    simp only [ofContents, Content.views, hview, hviews]

end

end

theorem ofContent_initial (root : Content) :
    (ofContent root .initial).lines = root.order.map (root.line (tag root.order)) := by
  have horder : enterAll [] (root.visits []) <+: root.order := by
    rw [enterAll_nil_eq, Content.order]
  have hclosed : Closed [] := by simp [Closed]
  have hunmet : Unmet [] [] := by simp [Unmet]
  rcases (ofContent_adds root rfl counts_initial hclosed hunmet horder).2.lines_eq
    with ⟨new, hnew, hlines⟩
  rw [hlines, Content.order, ← enterAll_nil_eq, hnew, List.nil_append]

end Squishc.Listing

namespace Squishc.Node

open Listing

/-- The lines of a listing are those of what the tree reaches, in the order in which a
walk meets it first. -/
theorem listingLines_eq (n : Node) :
    n.listingLines = n.content.order.map (n.content.line (tag n.content.order)) := by
  rw [listingLines, ofNode_eq, ofContent_initial]

end Squishc.Node
