import Squishc.Proofs.LegiblePrograms
import Squishc.Proofs.ListingText

/-!
# A listing determines its program

Two programs with the same listing have the same lines.  The first lines are those of the
programs themselves, and from there on a line tells the kind of its object, what the
fields hold and the tags of the nodes and the entities below.  So both trees are the same
but for their entities, and an entity of one goes with that of the other which has the
same tag.

Main results:

- Theorem `fits_content`: the objects of a legible tree are as their schemas say.
- Theorem `Alike.bijOn`: entities with the same tag go together one by one.
- Theorem `Alike.relabel_eq`: what shows the same in the same place is the same.
- Theorem `listing_determines_program`: programs with one listing differ in their
  entities only, and every listing is numbered as its tree is walked.
-/

namespace Squishc.Listing

/-! ## Programs fit their schemas -/

theorem fits_node {kind : String} {fields : List Content} (hkind : isNodeKind kind = true)
    (h : Content.fitAll fields (slots kind) = true) :
    (Content.node kind fields).fits .part = true := by
  rw [Content.fits, hkind, h]
  rfl

theorem fits_list {items : List Content}
    (h : Content.fitAll items (List.replicate items.length .item) = true) :
    (Content.list items).fits .part = true := by
  rw [Content.fits, h]
  rfl

theorem fitAll_cons {c : Content} {cs : List Content} {slot : Slot} {rest : List Slot}
    (h : c.fits slot = true) (h' : Content.fitAll cs rest = true) :
    Content.fitAll (c :: cs) (slot :: rest) = true := by
  rw [Content.fitAll, h, h']
  rfl

theorem fits_item {c : Content} (hlist : ∀ items, c ≠ .list items) (h : c.fits .part = true) :
    c.fits .item = true := by
  cases c with
  | atom a => cases a <;> exact h
  | entity e => rfl
  | list items => exact absurd rfl (hlist items)
  | node kind fields => exact h

end Squishc.Listing

namespace Squishc.Node

open Listing

theorem content_ne_list {n : Node} (h : n.isList = false) (items : List Content) :
    n.content ≠ .list items := by
  cases n <;> simp_all [isList]

mutual

/-- The objects of a legible tree are as the schemas of their kinds say. -/
theorem fits_content : ∀ {n : Node}, n.legible = true → n.content.fits .part = true
  | null, _ | foreign, _ | bool _, _ | number _, _ | var _, _ | function _, _ => rfl
  | exit, _ | shortRet, _ | string _ _, _ => rfl
  | list _, h => fits_list (fitAll_contents h)
  | program _, h => fits_node rfl (fitAll_cons (fits_list (fitAll_contents h)) rfl)
  | print argument, h => fits_node rfl (fitAll_cons (fits_content (n := argument) h) rfl)
  | declare _ initializer, h =>
    fits_node rfl (fitAll_cons rfl (fitAll_cons (fits_content (n := initializer) h) rfl))
  | assign _ source, h =>
    fits_node rfl (fitAll_cons rfl (fitAll_cons (fits_content (n := source) h) rfl))
  | shortIf _ _, h => by
    simp only [legible, Bool.and_eq_true] at h
    exact fits_node rfl (fitAll_cons (fits_content h.1)
      (fitAll_cons (fits_list (fitAll_contents h.2)) rfl))
  | ifElse _ _ _, h => by
    simp only [legible, Bool.and_eq_true] at h
    exact fits_node rfl (fitAll_cons (fits_content h.1)
      (fitAll_cons (fits_list (fitAll_contents h.2.1)) (fitAll_cons (fits_content h.2.2) rfl)))
  | whileLoop _ _, h => by
    simp only [legible, Bool.and_eq_true] at h
    exact fits_node rfl (fitAll_cons (fits_content h.1)
      (fitAll_cons (fits_list (fitAll_contents h.2)) rfl))
  | forLoop _ _ _ _ _, h => by
    simp only [legible, Bool.and_eq_true] at h
    exact fits_node rfl (fitAll_cons (fits_content h.1) (fitAll_cons (fits_content h.2.1)
      (fitAll_cons (fits_content h.2.2.1)
        (fitAll_cons (fits_list (fitAll_contents h.2.2.2)) rfl))))
  | forEach _ _ _, h => by
    simp only [legible, Bool.and_eq_true] at h
    exact fits_node rfl (fitAll_cons rfl (fitAll_cons (fits_content h.1)
      (fitAll_cons (fits_list (fitAll_contents h.2)) rfl)))
  | define _ _, h =>
    fits_node rfl (fitAll_cons rfl (fitAll_cons (fits_list (fitAll_contents h)) rfl))
  | ret expression, h => fits_node rfl (fitAll_cons (fits_content (n := expression) h) rfl)
  | call _ _ _, h =>
    fits_node rfl (fitAll_cons rfl (fitAll_cons (fits_list (fitAll_contents h)) rfl))
  | unary _ _ _, h => by
    simp only [legible, Bool.and_eq_true] at h
    exact fits_node rfl (fitAll_cons rfl (fitAll_cons (fits_content h.2) rfl))
  | binary _ _ _ _, h => by
    simp only [legible, Bool.and_eq_true] at h
    exact fits_node rfl (fitAll_cons rfl (fitAll_cons (fits_content h.2.2.1)
      (fitAll_cons (fits_content h.2.2.2) rfl)))
  | conditional _ _ _ _, h => by
    simp only [legible, Bool.and_eq_true] at h
    exact fits_node rfl (fitAll_cons (fits_content h.1) (fitAll_cons (fits_content h.2.1)
      (fitAll_cons (fits_content h.2.2) rfl)))
  | array _ _, h => fits_node rfl (fitAll_cons (fits_list (fitAll_contents h)) rfl)
  | index _ _ _, h => by
    simp only [legible, Bool.and_eq_true] at h
    exact fits_node rfl (fitAll_cons (fits_content h.1) (fitAll_cons (fits_content h.2) rfl))

theorem fitAll_contents : ∀ {ns : List Node}, allLegible ns = true →
    Content.fitAll (contents ns) (List.replicate (contents ns).length .item) = true
  | [], _ => rfl
  | n :: rest, h => by
    simp only [allLegible, Bool.and_eq_true, Bool.not_eq_true'] at h
    exact fitAll_cons (fits_item (content_ne_list h.1) (fits_content h.2.1))
      (fitAll_contents h.2.2)

end

end Squishc.Node

namespace Squishc.Listing

/-! ## The objects of a tree -/

theorem exists_fits_of_getElem? {c : Content} :
    ∀ {cs : List Content} {places : List Slot} {i : Nat},
    Content.fitAll cs places = true → cs[i]? = some c → ∃ slot, c.fits slot = true
  | _ :: _, slot :: _, 0, h, hc => by
    simp only [Content.fitAll, Bool.and_eq_true] at h
    cases hc
    exact ⟨slot, h.1⟩
  | _ :: _, _ :: _, i + 1, h, hc => by
    simp only [Content.fitAll, Bool.and_eq_true] at h
    exact exists_fits_of_getElem? h.2 hc

theorem exists_fits_of_at? {d : Content} : ∀ {c : Content} {slot : Slot} {path : List Nat},
    c.fits slot = true → c.at? path = some d → ∃ slot, d.fits slot = true
  | _, slot, [], h, hd => by
    cases hd
    exact ⟨slot, h⟩
  | c, _, i :: path, h, hd => by
    rcases Option.bind_eq_some_iff.mp hd with ⟨e, he, hbelow⟩
    cases c with
    | atom _ | entity _ => cases he
    | list items =>
      simp only [Content.fits, Bool.and_eq_true] at h
      rcases exists_fits_of_getElem? h.2 he with ⟨slot, hslot⟩
      exact exists_fits_of_at? hslot hbelow
    | node kind fields =>
      simp only [Content.fits, Bool.and_eq_true] at h
      rcases exists_fits_of_getElem? h.2.2 he with ⟨slot, hslot⟩
      exact exists_fits_of_at? hslot hbelow

theorem fitAll_entities (vs : List Variable) :
    Content.fitAll (vs.map (fun v => .entity (.var v)))
      (List.replicate (vs.map (fun v => Content.entity (.var v))).length .item) = true := by
  induction vs with
  | nil => rfl
  | cons v rest ih => exact fitAll_cons rfl ih

theorem fitAll_entity (e : Entity) : Content.fitAll e.fields (slots e.kind) = true := by
  cases e with
  | var v => rfl
  | function f => exact fitAll_cons rfl (fitAll_cons (fits_list (fitAll_entities f.params)) rfl)

theorem not_isNodeKind_entity (e : Entity) : isNodeKind e.kind = false := by
  cases e <;> rfl

section

variable {root : Content}

/-- The node at a place is of one of the kinds of nodes, with what belongs in its
fields. -/
theorem node_of_reaches (hroot : root.fits .part = true) {path : List Nat}
    (h : root.Reaches (.place path)) :
    ∃ kind fields, root.object (.place path) = ⟨kind, path, fields⟩ ∧ isNodeKind kind = true ∧
      Content.fitAll fields (slots kind) = true := by
  cases h with
  | @node _ kind fields hat =>
    rcases exists_fits_of_at? hroot hat with ⟨slot, hslot⟩
    simp only [Content.fits, Bool.and_eq_true] at hslot
    exact ⟨kind, fields, by simp only [Content.object, hat], hslot.2⟩

/-- The object of a key is of some kind, with what belongs in its fields. -/
theorem object_of_reaches (hroot : root.fits .part = true) {k : Key} (h : root.Reaches k) :
    isKind (root.object k).kind = true ∧
      Content.fitAll (root.object k).fields (slots (root.object k).kind) = true := by
  cases k with
  | place path =>
    rcases node_of_reaches hroot h with ⟨kind, fields, hobject, hkind, hfields⟩
    simp only [isNodeKind, Bool.and_eq_true] at hkind
    rw [hobject]
    exact ⟨hkind.1, hfields⟩
  | entity e => exact ⟨by cases e <;> rfl, fitAll_entity e⟩

theorem newline_not_mem_lines (hroot : root.fits .part = true) :
    ∀ l ∈ root.order.map (root.line (tag root.order)), '\n' ∉ l.toList := by
  intro l hl
  rcases List.mem_map.mp hl with ⟨k, hk, rfl⟩
  rcases object_of_reaches hroot (mem_order_iff.mp hk) with ⟨hkind, hfields⟩
  exact newline_not_mem_line _ hkind (shown_views _ _ _ hfields)

end

/-! ## Two trees with the same lines -/

/-- Two trees with the same lines. -/
structure Alike (left right : Content) : Prop where
  fits_left : left.fits .part = true
  fits_right : right.fits .part = true
  lines_eq : left.order.map (left.line (tag left.order)) =
    right.order.map (right.line (tag right.order))

/-- What becomes of the entities: each becomes the one in the same position of another
order. -/
def matching (order order' : List Key) : Relabeling where
  var v :=
    match order'[order.idxOf (.entity (.var v))]? with
    | some (.entity (.var w)) => w
    | _ => v
  function f :=
    match order'[order.idxOf (.entity (.function f))]? with
    | some (.entity (.function g)) => g
    | _ => f

namespace Alike

variable {left right : Content}

theorem symm (h : Alike left right) : Alike right left :=
  ⟨h.fits_right, h.fits_left, h.lines_eq.symm⟩

theorem length_eq (h : Alike left right) : left.order.length = right.order.length := by
  simpa using congrArg List.length h.lines_eq

/-- Keys with the same tag have objects of the same kind, whose fields show the same. -/
theorem object_eq (h : Alike left right) {k k' : Key} (hk : left.Reaches k) (hk' : right.Reaches k')
    (htag : tag left.order k = tag right.order k') :
    (left.object k).kind = (right.object k').kind ∧
      (left.object k).views (tag left.order) = (right.object k').views (tag right.order) := by
  have hidx : left.order.idxOf k = right.order.idxOf k' := Nat.succ_injective htag
  have hline : left.line (tag left.order) k = right.line (tag right.order) k' := by
    have hget := congrArg (·[left.order.idxOf k]?) h.lines_eq
    rw [List.getElem?_map, List.getElem?_map, List.getElem?_idxOf (mem_order_iff.mpr hk), hidx,
      List.getElem?_idxOf (mem_order_iff.mpr hk')] at hget
    exact Option.some.inj hget
  rw [Content.line, Content.line, htag] at hline
  rcases object_of_reaches h.fits_left hk with ⟨hkind, hfields⟩
  rcases object_of_reaches h.fits_right hk' with ⟨hkind', hfields'⟩
  exact line_injective hkind hkind' (shown_views _ _ _ hfields) (shown_views _ _ _ hfields') hline

/-- Every tag is that of a key in both trees. -/
theorem exists_tag_eq (h : Alike left right) {k : Key} (hk : left.Reaches k) :
    ∃ k', right.Reaches k' ∧ tag left.order k = tag right.order k' := by
  have hlt : left.order.idxOf k < right.order.length := by
    rw [← h.length_eq]
    exact List.idxOf_lt_length_iff.mpr (mem_order_iff.mpr hk)
  refine ⟨right.order[left.order.idxOf k], mem_order_iff.mp (List.getElem_mem hlt), ?_⟩
  rw [tag, tag, (nodup_order right).idxOf_getElem _ hlt]

/-- An entity does not have the tag of a node. -/
theorem tag_entity_ne (h : Alike left right) {path : List Nat} {e : Entity}
    (he : left.Reaches (.entity e)) (hplace : right.Reaches (.place path)) :
    tag left.order (.entity e) ≠ tag right.order (.place path) := by
  intro htag
  rcases node_of_reaches h.fits_right hplace with ⟨kind, fields, hobject, hkind, -⟩
  have hkinds := (h.object_eq he hplace htag).1
  rw [hobject] at hkinds
  have hno := not_isNodeKind_entity e
  rw [show e.kind = kind from hkinds, hkind] at hno
  cases hno

/-- An entity has the tag of an entity. -/
theorem exists_entity (h : Alike left right) {e : Entity} (he : left.Reaches (.entity e)) :
    ∃ e', right.Reaches (.entity e') ∧
      tag left.order (.entity e) = tag right.order (.entity e') := by
  rcases h.exists_tag_eq he with ⟨k, hk, htag⟩
  cases k with
  | entity e' => exact ⟨e', hk, htag⟩
  | place path => exact absurd htag (h.tag_entity_ne he hk)

/-- An entity becomes the one with the same tag. -/
theorem matching_entity (h : Alike left right) {e e' : Entity} (he : left.Reaches (.entity e))
    (he' : right.Reaches (.entity e'))
    (htag : tag left.order (.entity e) = tag right.order (.entity e')) :
    (matching left.order right.order).entity e = e' := by
  have hidx : left.order.idxOf (.entity e) = right.order.idxOf (.entity e') :=
    Nat.succ_injective htag
  have hget := List.getElem?_idxOf (mem_order_iff.mpr he')
  have hkind : e.kind = e'.kind := (h.object_eq he he' htag).1
  cases e with
  | var v =>
    cases e' with
    | var w => simp only [Relabeling.entity, matching, hidx, hget]
    | function g => exact absurd (a := "Variable" = "Function") hkind (by decide)
  | function f =>
    cases e' with
    | var w => exact absurd (a := "Function" = "Variable") hkind (by decide)
    | function g => simp only [Relabeling.entity, matching, hidx, hget]

/-! ### Entities -/

theorem bijOn (h : Alike left right) :
    Set.BijOn (matching left.order right.order).entity {e | left.Reaches (.entity e)}
      {e | right.Reaches (.entity e)} := by
  refine ⟨fun e he => ?_, fun e he d hd heq => ?_, fun e' he' => ?_⟩
  · rcases h.exists_entity he with ⟨e', he', htag⟩
    rw [h.matching_entity he he' htag]
    exact he'
  · rcases h.exists_entity he with ⟨e', he', htag⟩
    rcases h.exists_entity hd with ⟨d', hd', htag'⟩
    rw [h.matching_entity he he' htag, h.matching_entity hd hd' htag'] at heq
    rw [heq, ← htag'] at htag
    exact Key.entity.inj
      ((List.idxOf_inj (mem_order_iff.mpr he)).mp (Nat.succ_injective htag))
  · rcases h.symm.exists_entity he' with ⟨e, he, htag⟩
    exact ⟨e, he, h.matching_entity he he' htag.symm⟩

/-- A variable becomes one of the same name and type. -/
theorem matching_var (h : Alike left right) {v : Variable} (hv : left.Reaches (.entity (.var v))) :
    ((matching left.order right.order).var v).name = v.name ∧
      ((matching left.order right.order).var v).type = v.type := by
  rcases h.exists_entity hv with ⟨e', he', htag⟩
  have hmatch := h.matching_entity hv he' htag
  rw [Relabeling.entity] at hmatch
  subst hmatch
  have hviews := (h.object_eq hv he' htag).2
  simp only [Content.object, Object.views, Entity.fields, Content.views, Content.view, Atom.text,
    List.cons.injEq, and_true] at hviews
  exact ⟨(Text.quoted_injective hviews.1).symm, (Ty.name_injective hviews.2).symm⟩

theorem map_matching_var (h : Alike left right) : ∀ {vs ws : List Variable},
    (∀ v ∈ vs, left.Reaches (.entity (.var v))) → (∀ w ∈ ws, right.Reaches (.entity (.var w))) →
    vs.map (fun v => reference (tag left.order (.entity (.var v)))) =
      ws.map (fun w => reference (tag right.order (.entity (.var w)))) →
    vs.map (matching left.order right.order).var = ws
  | [], [], _, _, _ => rfl
  | v :: vs, w :: ws, hvs, hws, hviews => by
    rw [List.forall_mem_cons] at hvs hws
    rw [List.map_cons, List.map_cons, List.cons.injEq] at hviews
    have hmatch := h.matching_entity hvs.1 hws.1 (reference_injective hviews.1)
    rw [List.map_cons, Entity.var.inj hmatch, h.map_matching_var hvs.2 hws.2 hviews.2]

/-- A function becomes one of the same name, with what the parameters become. -/
theorem matching_function (h : Alike left right) {f : Function}
    (hf : left.Reaches (.entity (.function f))) :
    ((matching left.order right.order).function f).name = f.name ∧
      ((matching left.order right.order).function f).params =
        f.params.map (matching left.order right.order).var := by
  rcases h.exists_entity hf with ⟨e', he', htag⟩
  have hmatch := h.matching_entity hf he' htag
  rw [Relabeling.entity] at hmatch
  subst hmatch
  have hviews := (h.object_eq hf he' htag).2
  simp only [Content.object, Object.views, Entity.fields, Content.views, Content.view, Atom.text,
    views_entities, List.cons.injEq, and_true] at hviews
  have hshown : ∀ {tag : Key → Nat} (vs : List Variable),
      ∀ view ∈ vs.map (fun v => reference (tag (.entity (.var v)))), Shown .item view := by
    intro tag vs view hview
    rcases List.mem_map.mp hview with ⟨v, -, rfl⟩
    exact shown_reference _
  exact ⟨(Text.quoted_injective hviews.1).symm,
    (h.map_matching_var (fun v hv => .param hf hv) (fun w hw => .param he' hw)
      (bracketed_injective (hshown _) (hshown _) hviews.2)).symm⟩

/-! ### Trees -/

theorem length_views (tag : Key → Nat) (path : List Nat) (i : Nat) (cs : List Content) :
    (Content.views tag path i cs).length = cs.length := by
  induction cs generalizing i with
  | nil => rfl
  | cons c rest ih => rw [Content.views, List.length_cons, ih, List.length_cons]

theorem reference_ne_text {a : Atom} {slot : Slot} (hslot : slot.takesItems = true)
    (ha : a.fits slot = true) (n : Nat) : reference n ≠ a.text := by
  intro h
  refine (Atom.mark_not_mem_text hslot ha).1 ?_
  rw [← h, toList_reference]
  exact List.mem_cons_self ..

theorem bracketed_ne_text {a : Atom} {slot : Slot} (hslot : slot.takesItems = true)
    (ha : a.fits slot = true) (views : List String) : bracketed views ≠ a.text := by
  intro h
  refine (Atom.mark_not_mem_text hslot ha).2 ?_
  rw [← h, toList_bracketed]
  exact List.mem_cons_self ..

theorem bracketed_ne_reference (views : List String) (n : Nat) : bracketed views ≠ reference n := by
  intro h
  replace h := congrArg String.toList h
  rw [toList_bracketed, toList_reference] at h
  exact absurd (List.cons.inj h).1 (by decide)

/-- A place that is met in both trees holds nodes of one kind, whose fields show the
same. -/
theorem node_eq (h : Alike left right) {path : List Nat} {kind kind' : String}
    {fields fields' : List Content} (hat : left.at? path = some (.node kind fields))
    (hat' : right.at? path = some (.node kind' fields'))
    (htag : tag left.order (.place path) = tag right.order (.place path)) :
    kind = kind' ∧ Content.views (tag left.order) path 0 fields =
      Content.views (tag right.order) path 0 fields' := by
  have heq := h.object_eq (.node hat) (.node hat') htag
  simpa only [Content.object, hat, hat', Object.views] using heq

mutual

/-- Contents in the same place that show the same are the same, but for what becomes of
the entities. -/
theorem relabel_eq (h : Alike left right) : ∀ {c c' : Content} {path : List Nat} {slot : Slot},
    left.at? path = some c → right.at? path = some c' → c.fits slot = true → c'.fits slot = true →
    c.view (tag left.order) path = c'.view (tag right.order) path →
    c.relabel (matching left.order right.order) = c'
  | .atom a, c', path, slot, hat, hat', hfits, hfits', hview => by
    cases c' with
    | atom b => exact congrArg Content.atom (Atom.text_injective hfits hfits' hview)
    | entity e => exact absurd hview.symm (reference_ne_text hfits' hfits _)
    | list items =>
      simp only [Content.fits, Bool.and_eq_true, decide_eq_true_eq] at hfits'
      exact absurd hview.symm (bracketed_ne_text (by rw [hfits'.1]; rfl) hfits _)
    | node kind fields =>
      simp only [Content.fits, Bool.and_eq_true] at hfits'
      exact absurd hview.symm (reference_ne_text hfits'.1 hfits _)
  | .entity e, c', path, slot, hat, hat', hfits, hfits', hview => by
    cases c' with
    | atom b => exact absurd hview (reference_ne_text hfits hfits' _)
    | entity e' =>
      exact congrArg Content.entity
        (h.matching_entity (.entity hat) (.entity hat') (reference_injective hview))
    | list items => exact absurd hview.symm (bracketed_ne_reference _ _)
    | node kind fields =>
      exact absurd (reference_injective hview) (h.tag_entity_ne (.entity hat) (.node hat'))
  | .list items, c', path, slot, hat, hat', hfits, hfits', hview => by
    simp only [Content.fits, Bool.and_eq_true, decide_eq_true_eq] at hfits
    cases c' with
    | atom b => exact absurd hview (bracketed_ne_text (by rw [hfits.1]; rfl) hfits' _)
    | entity e' => exact absurd hview (bracketed_ne_reference _ _)
    | list items' =>
      simp only [Content.fits, Bool.and_eq_true, decide_eq_true_eq] at hfits'
      have hviews := bracketed_injective (shown_item_of_forall₂ (shown_views _ path 0 hfits.2))
        (shown_item_of_forall₂ (shown_views _ path 0 hfits'.2)) hview
      have hlength : items.length = items'.length := by
        simpa [length_views] using congrArg List.length hviews
      rw [hlength] at hfits
      exact congrArg Content.list
        (h.relabelAll_eq (holds_inner hat) (holds_inner hat') hfits.2 hfits'.2 hviews)
    | node kind fields => exact absurd hview (bracketed_ne_reference _ _)
  | .node kind fields, c', path, slot, hat, hat', hfits, hfits', hview => by
    simp only [Content.fits, Bool.and_eq_true] at hfits
    cases c' with
    | atom b => exact absurd hview (reference_ne_text hfits.1 hfits' _)
    | entity e' =>
      exact absurd (reference_injective hview).symm
        (h.symm.tag_entity_ne (.entity hat') (.node hat))
    | list items => exact absurd hview.symm (bracketed_ne_reference _ _)
    | node kind' fields' =>
      simp only [Content.fits, Bool.and_eq_true] at hfits'
      rcases h.node_eq hat hat' (reference_injective hview) with ⟨rfl, hviews⟩
      exact congrArg (Content.node kind)
        (h.relabelAll_eq (holds_inner hat) (holds_inner hat') hfits.2.2 hfits'.2.2 hviews)

theorem relabelAll_eq (h : Alike left right) : ∀ {cs cs' : List Content} {path : List Nat} {i : Nat}
    {places : List Slot}, left.Holds path i cs → right.Holds path i cs' →
    Content.fitAll cs places = true →
    Content.fitAll cs' places = true →
    Content.views (tag left.order) path i cs = Content.views (tag right.order) path i cs' →
    Content.relabelAll (matching left.order right.order) cs = cs'
  | [], [], _, _, _, _, _, _, _, _ => rfl
  | c :: cs, c' :: cs', _, _, slot :: places, hat, hat', hfits, hfits', hviews => by
    simp only [Content.fitAll, Bool.and_eq_true] at hfits hfits'
    rw [Content.views, Content.views, List.cons.injEq] at hviews
    rw [Content.relabelAll, h.relabel_eq hat.head hat'.head hfits.1 hfits'.1 hviews.1,
      h.relabelAll_eq hat.tail hat'.tail hfits.2 hfits'.2 hviews.2]

end

end Alike

/-! ## Numbering -/

/-- The lines of a tree of objects are numbered as it is walked: what the tree reaches has
one line each, the tags count from one on in the order of first visits, and a reference
gives the place of the line of what stands in a field. -/
structure Numbered (root : Content) (lines : List String) : Prop where
  once : root.order.Nodup ∧ ∀ k, k ∈ root.order ↔ root.Reaches k
  tags : root.order.map (tag root.order) = List.range' 1 lines.length
  lines_eq : lines = root.order.map (root.line (tag root.order))
  node_view : ∀ {path : List Nat} {kind : String} {fields : List Content},
    root.at? path = some (.node kind fields) →
    ∃ n, (Content.node kind fields).view (tag root.order) path = reference (n + 1) ∧
      lines[n]? = some (line (n + 1) kind
        ((fieldNames kind).zip (Content.views (tag root.order) path 0 fields)))
  entity_view : ∀ {path : List Nat} {e : Entity}, root.at? path = some (.entity e) →
    ∃ n, (Content.entity e).view (tag root.order) path = reference (n + 1) ∧
      lines[n]? = some (line (n + 1) e.kind
        ((fieldNames e.kind).zip (Content.views (tag root.order) [] 0 e.fields)))

theorem map_tag_order (root : Content) :
    root.order.map (tag root.order) = List.range' 1 root.order.length := by
  refine List.ext_getElem (by simp) fun i hi _ => ?_
  rw [List.length_map] at hi
  rw [List.getElem_map, tag, (nodup_order root).idxOf_getElem i hi, List.getElem_range',
    Nat.one_mul, Nat.add_comm]

/-- The node at the top has the first tag. -/
theorem view_top (kind : String) (fields : List Content) :
    (Content.node kind fields).view (tag (Content.node kind fields).order) [] = reference 1 := by
  rw [Content.view, Content.order, Content.visits, List.eraseDups_cons, tag, List.idxOf_cons_self]

theorem getElem?_lines {root : Content} {k : Key} (hk : root.Reaches k) :
    (root.order.map (root.line (tag root.order)))[root.order.idxOf k]? =
      some (root.line (tag root.order) k) := by
  rw [List.getElem?_map, List.getElem?_idxOf (mem_order_iff.mpr hk), Option.map_some]

theorem numbered (root : Content) :
    Numbered root (root.order.map (root.line (tag root.order))) where
  once := ⟨nodup_order root, fun _ => mem_order_iff⟩
  tags := by rw [List.length_map, map_tag_order]
  lines_eq := rfl
  node_view := by
    intro path kind fields hat
    refine ⟨root.order.idxOf (.place path), by rw [Content.view, tag], ?_⟩
    rw [getElem?_lines (.node hat), line_place hat, tag]
  entity_view := by
    intro path e hat
    refine ⟨root.order.idxOf (.entity e), by rw [Content.view, tag], ?_⟩
    rw [getElem?_lines (.entity hat), Content.line, Content.object, Object.views, tag]

end Squishc.Listing

namespace Squishc

open Listing

/-! ## Programs -/

/-- The entities that a tree reaches. -/
def Node.entities (n : Node) : Set Entity := {e | n.content.Reaches (.entity e)}

/-- A relabeling carries one tree onto another: it matches their entities one by one, keeps
names, types and lists of parameters, and turns the one tree into the other. -/
structure Relabeling.Carries (m : Relabeling) (s t : Node) : Prop where
  bijOn : Set.BijOn m.entity s.entities t.entities
  var : ∀ v, .var v ∈ s.entities → (m.var v).name = v.name ∧ (m.var v).type = v.type
  function : ∀ f, .function f ∈ s.entities →
    (m.function f).name = f.name ∧ (m.function f).params = f.params.map m.var
  tree : s.relabel m = t

/-- Trees whose objects tell them apart and that have the same lines differ in their
entities only. -/
theorem Listing.Alike.carries {s t : Node} (h : Alike s.content t.content)
    (hs : s.legible = true) (ht : t.legible = true)
    (hview : s.content.view (tag s.content.order) [] = t.content.view (tag t.content.order) []) :
    (matching s.content.order t.content.order).Carries s t where
  bijOn := h.bijOn
  var _ hv := h.matching_var hv
  function _ hf := h.matching_function hf
  tree := by
    have hat (c : Content) : c.at? [] = some c := rfl
    have hcontent := h.relabel_eq (hat _) (hat _) h.fits_left h.fits_right hview
    rw [← Node.content_relabel] at hcontent
    exact Node.eq_of_content_eq (by rw [Node.legible_relabel, hs]) ht hcontent

theorem Built.alike {s t : Node} (hs : Built s) (ht : Built t) {text : String}
    (hstext : s.listing? = some text) (httext : t.listing? = some text) :
    Alike s.content t.content := by
  have hsfits := Node.fits_content hs.legible
  have htfits := Node.fits_content ht.legible
  have hlines : ∀ {n : Node}, Built n → n.listingLines ≠ [] := by
    intro n hn
    rcases hn.eq_program with ⟨statements, rfl⟩
    exact List.cons_ne_nil _ _
  have htext : "\n".intercalate s.listingLines = "\n".intercalate t.listingLines := by
    unfold Node.listing? at hstext httext
    split at hstext <;> split at httext <;> simp_all
  refine ⟨hsfits, htfits, ?_⟩
  rw [← Node.listingLines_eq, ← Node.listingLines_eq]
  refine lines_injective ?_ ?_ (hlines hs) (hlines ht) htext
  · rw [Node.listingLines_eq]
    exact newline_not_mem_lines hsfits
  · rw [Node.listingLines_eq]
    exact newline_not_mem_lines htfits

/-- Two programs that the passes build and that have the same listing are the same but for
their entities, which a relabeling matches one by one.  Every listing has one line for each
node and each entity that is reached, numbered in the order of first visits, and a reference
in a field names the line of what stands there. -/
theorem listing_determines_program :
    (∀ {s t : Node} {text : String}, Built s → Built t → s.listing? = some text →
      t.listing? = some text → ∃ m : Relabeling, m.Carries s t) ∧
    ∀ n : Node, Numbered n.content n.listingLines := by
  refine ⟨?_, ?_⟩
  · intro s t text hs ht hstext httext
    have hview : s.content.view (tag s.content.order) [] =
        t.content.view (tag t.content.order) [] := by
      rcases hs.eq_program with ⟨sStatements, rfl⟩
      rcases ht.eq_program with ⟨tStatements, rfl⟩
      rw [Node.content, Node.content, view_top, view_top]
    exact ⟨_, (hs.alike ht hstext httext).carries hs.legible ht.legible hview⟩
  · intro n
    rw [Node.listingLines_eq]
    exact numbered n.content

/-- A variable and a function that prints it with its parameter. -/
def plainStatements : List Surface.Stmt :=
  [.declare ⟨⟨2, 1⟩, "x", .int ⟨2, 12⟩ 2⟩,
    .function ⟨3, 1⟩ "g" [⟨⟨3, 5⟩, "a"⟩]
      [.print ⟨3, 8⟩ (.binary ⟨3, 14⟩ .add (.var ⟨3, 14⟩ "x") (.var ⟨3, 18⟩ "a"))]]

/-- The same behind a loop that never runs, whose variable takes the first number. -/
def idleStatements : List Surface.Stmt :=
  .whileLoop ⟨1, 1⟩ (.bool ⟨1, 7⟩ false) [.declare ⟨⟨1, 14⟩, "y", .int ⟨1, 25⟩ 1⟩] ::
    plainStatements

/-- The tree of that program, with entities that are numbered from the given number on. -/
def plainTree (first : Nat) : Node :=
  .program [.declare ⟨first, "x", .int⟩ (.number (.int 2)),
    .define ⟨first + 1, "g", [⟨first + 2, "a", .any⟩]⟩
      [.print (.binary .add (.var ⟨first, "x", .int⟩) (.var ⟨first + 2, "a", .any⟩) .int)]]

def plainListing : String :=
  "   1 | Program statements=[#2,#4]\n" ++
  "   2 | VariableDeclaration variable=#3 initializer=2\n" ++
  "   3 | Variable name='x' type=int\n" ++
  "   4 | FunctionDeclaration fun=#5 body=[#7]\n" ++
  "   5 | Function name='g' params=[#6]\n" ++
  "   6 | Variable name='a' type=any\n" ++
  "   7 | PrintStatement argument=#8\n" ++
  "   8 | BinaryExpression op='+' left=#3 right=#6 type=int"

theorem plainTree_determined :
    (∃ t, resolve ⟨idleStatements⟩ = .ok t ∧ optimize t = .ok (plainTree 1)) ∧
    resolve ⟨plainStatements⟩ = .ok (plainTree 0) ∧
    (plainTree 1).listing? = some plainListing ∧ (plainTree 0).listing? = some plainListing ∧
    ∃ m : Relabeling, m.Carries (plainTree 1) (plainTree 0) ∧
      m.var ⟨1, "x", .int⟩ = ⟨0, "x", .int⟩ := by
  have hidle : ∃ t, resolve ⟨idleStatements⟩ = .ok t ∧ optimize t = .ok (plainTree 1) :=
    ⟨_, rfl, rfl⟩
  have hplain : resolve ⟨plainStatements⟩ = .ok (plainTree 0) := rfl
  have hlisting : (plainTree 1).listing? = some plainListing := by decide +kernel
  have hlisting' : (plainTree 0).listing? = some plainListing := by decide +kernel
  have hbuilt : Built (plainTree 1) := by
    rcases hidle with ⟨t, ht, hoptimize⟩
    exact .optimized (.resolved rfl ht) hoptimize
  rcases listing_determines_program.1 hbuilt (.resolved rfl hplain) hlisting hlisting' with ⟨m, hm⟩
  refine ⟨hidle, hplain, hlisting, hlisting', m, hm, ?_⟩
  have htree := hm.tree
  simp only [plainTree, Node.relabel, Node.relabelAll, Node.program.injEq, List.cons.injEq,
    Node.declare.injEq] at htree
  exact htree.1.1

end Squishc
