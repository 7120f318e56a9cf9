import Mathlib.Data.List.Nodup
import Squishc.Proofs.NameResolution

/-!
# Scopes of typed trees

Two views on where the entities of a typed tree are known.  In the language
itself, a statement makes its entities known to the statements behind it, also
across the end of a branch.  In blocks, where a declaration is either bound to
its block or raised to the function around it, what stands directly in a branch
is raised and everything else is bound.

Main results:

- Theorem `exports_subset`: what a statement makes known behind it is bound to
  its block or raised out of it.
- Theorem `count_bound_add_raised`: what a statement binds or raises it declares.
- Theorem `clear_of_nodup`: a tree that declares each entity once has no clash in
  any block.
-/

namespace Squishc.Node

/-! ## Scopes of the language -/

mutual

/-- The entities that a statement makes known to the statements behind it. -/
def exports : Node → List Entity
  | declare v _ => [.var v]
  | define f _ => [.function f]
  | shortIf _ consequence => exportsAll consequence
  | ifElse _ consequence alternate => exportsAll consequence ++ alternate.exports
  | list items => exportsAll items
  | _ => []

/-- The entities that some statements make known to the statements behind them. -/
def exportsAll : List Node → List Entity
  | [] => []
  | n :: rest => n.exports ++ exportsAll rest

end

mutual

/-- A statement uses no entity but the known ones and those that it declares
itself. -/
def Scoped (known : List Entity) : Node → Prop
  | print argument => argument.mentioned ⊆ known
  | declare _ initializer => initializer.mentioned ⊆ known
  | assign target source => .var target ∈ known ∧ source.mentioned ⊆ known
  | shortIf test consequence => test.mentioned ⊆ known ∧ ScopedAll known consequence
  | ifElse test consequence alternate =>
    test.mentioned ⊆ known ∧ ScopedAll known consequence ∧
      alternate.Scoped (known ++ exportsAll consequence)
  | list items => ScopedAll known items
  | whileLoop test body => test.mentioned ⊆ known ∧ ScopedAll known body
  | forLoop declaration test increment body _ =>
    declaration.Scoped known ∧ test.mentioned ⊆ known ++ declaration.exports ∧
      increment.Scoped (known ++ declaration.exports) ∧
      ScopedAll (known ++ declaration.exports) body
  | forEach iterator collection body =>
    collection.mentioned ⊆ known ∧ ScopedAll (known ++ [.var iterator]) body
  | define f body => ScopedAll (known ++ .function f :: f.params.map .var) body
  | call f args _ => .function f ∈ known ∧ mentionedAll args ⊆ known
  | ret expression => expression.mentioned ⊆ known
  | _ => True

/-- Some statements use no entity but the known ones and those that they declare
themselves. -/
def ScopedAll (known : List Entity) : List Node → Prop
  | [] => True
  | n :: rest => n.Scoped known ∧ ScopedAll (known ++ n.exports) rest

end

@[simp] theorem exportsAll_append (ns ms : List Node) :
    exportsAll (ns ++ ms) = exportsAll ns ++ exportsAll ms := by
  induction ns with
  | nil => rfl
  | cons n rest ih => simp [exportsAll, ih]

theorem scopedAll_append {known : List Entity} (ns ms : List Node) :
    ScopedAll known (ns ++ ms) ↔ ScopedAll known ns ∧ ScopedAll (known ++ exportsAll ns) ms := by
  induction ns generalizing known with
  | nil => simp [ScopedAll, exportsAll]
  | cons n rest ih => simp [ScopedAll, exportsAll, ih, and_assoc]

/-! ## Scopes of blocks -/

mutual

/-- The entities that a statement binds to the block it stands in. -/
def bound (inBranch : Bool) : Node → List Entity
  | declare v _ => if inBranch then [] else [.var v]
  | define f _ => if inBranch then [] else [.function f]
  | forLoop declaration _ _ body unrolled =>
    declaration.bound inBranch ++ (if unrolled then boundAll inBranch body else [])
  | _ => []

/-- The entities that some statements bind to the block they stand in. -/
def boundAll (inBranch : Bool) : List Node → List Entity
  | [] => []
  | n :: rest => n.bound inBranch ++ boundAll inBranch rest

end

mutual

/-- The entities that a statement raises to the function around it.  A list of
statements stands in a branch. -/
def raised (inBranch : Bool) : Node → List Entity
  | declare v _ => if inBranch then [.var v] else []
  | define f _ => if inBranch then [.function f] else []
  | shortIf _ consequence => raisedAll true consequence
  | ifElse _ consequence alternate => raisedAll true consequence ++ alternate.raised true
  | list items => raisedAll true items
  | whileLoop _ body => raisedAll false body
  | forLoop declaration _ _ body unrolled =>
    declaration.raised inBranch ++ raisedAll (unrolled && inBranch) body
  | forEach _ _ body => raisedAll false body
  | _ => []

/-- The entities that some statements raise to the function around them. -/
def raisedAll (inBranch : Bool) : List Node → List Entity
  | [] => []
  | n :: rest => n.raised inBranch ++ raisedAll inBranch rest

end

/-- No entity is bound twice in the block of some statements, or raised through it
and bound in it. -/
def Apart (body : List Node) : Prop :=
  (boundAll false body).Nodup ∧ ∀ e ∈ boundAll false body, e ∉ raisedAll false body

mutual

/-- There is no clash in the blocks inside a statement. -/
def Clear (inBranch : Bool) : Node → Prop
  | shortIf _ consequence => ClearAll true consequence
  | ifElse _ consequence alternate => ClearAll true consequence ∧ alternate.Clear true
  | list items => ClearAll true items
  | whileLoop _ body => Apart body ∧ ClearAll false body
  | forLoop _ _ _ body true => ClearAll inBranch body
  | forLoop _ _ _ body false => Apart body ∧ ClearAll false body
  | forEach iterator _ body =>
    .var iterator ∉ raisedAll false body ∧ Apart body ∧ ClearAll false body
  | define f body =>
    f.params.Nodup ∧ (∀ v ∈ f.params, .var v ∉ boundAll false body) ∧ Apart body ∧
      ClearAll false body
  | _ => True

/-- There is no clash in the blocks inside some statements. -/
def ClearAll (inBranch : Bool) : List Node → Prop
  | [] => True
  | n :: rest => n.Clear inBranch ∧ ClearAll inBranch rest

end

mutual

/-- Nothing is bound to the block of a branch. -/
theorem bound_true : ∀ n : Node, n.bound true = []
  | declare _ _ | define _ _ => rfl
  | forLoop declaration _ _ body unrolled => by
    rw [bound, bound_true declaration, boundAll_true body]
    cases unrolled <;> rfl
  | null | foreign | bool _ | number _ | var _ | function _ | list _ | program _ | print _
  | assign _ _ | shortIf _ _ | ifElse _ _ _ | whileLoop _ _ | forEach _ _ _ | exit | ret _
  | shortRet | call _ _ _ | unary _ _ _ | binary _ _ _ _ | conditional _ _ _ _ | string _ _
  | array _ _ | index _ _ _ => rfl

theorem boundAll_true : ∀ ns : List Node, boundAll true ns = []
  | [] => rfl
  | n :: rest => by rw [boundAll, bound_true n, boundAll_true rest, List.append_nil]

end

mutual

/-- What a statement makes known behind it is bound to its block or raised out of
it. -/
theorem exports_subset (inBranch : Bool) : ∀ (n : Node) (e : Entity), e ∈ n.exports →
    e ∈ n.bound inBranch ∨ e ∈ n.raised inBranch
  | declare v _, e, he => by cases inBranch <;> simpa [bound, raised, exports] using he
  | define f _, e, he => by cases inBranch <;> simpa [bound, raised, exports] using he
  | shortIf _ consequence, e, he => .inr (exportsAll_subset_raised consequence e he)
  | ifElse _ consequence alternate, e, he => by
    rw [exports, List.mem_append] at he
    rw [raised, List.mem_append]
    rcases he with he | he
    · exact .inr (.inl (exportsAll_subset_raised consequence e he))
    · have hor := exports_subset true alternate e he
      rw [bound_true] at hor
      exact .inr (.inr (hor.resolve_left List.not_mem_nil))
  | list items, e, he => .inr (exportsAll_subset_raised items e he)
  | null, _, he | foreign, _, he | bool _, _, he | number _, _, he | var _, _, he
  | function _, _, he | program _, _, he | print _, _, he | assign _ _, _, he
  | whileLoop _ _, _, he | forLoop _ _ _ _ _, _, he | forEach _ _ _, _, he | exit, _, he
  | ret _, _, he | shortRet, _, he | call _ _ _, _, he | unary _ _ _, _, he
  | binary _ _ _ _, _, he | conditional _ _ _ _, _, he | string _ _, _, he | array _ _, _, he
  | index _ _ _, _, he => absurd he List.not_mem_nil

/-- What stands in a branch is raised. -/
theorem exportsAll_subset_raised : ∀ (ns : List Node) (e : Entity), e ∈ exportsAll ns →
    e ∈ raisedAll true ns
  | [], _, he => he
  | n :: rest, e, he => by
    rw [exportsAll, List.mem_append] at he
    rw [raisedAll, List.mem_append]
    rcases he with he | he
    · have hor := exports_subset true n e he
      rw [bound_true] at hor
      exact .inl (hor.resolve_left List.not_mem_nil)
    · exact .inr (exportsAll_subset_raised rest e he)

end

/-! ## Declared once -/

/-- The entities that a statement declares, in the order of its walk. -/
def made (n : Node) : List Entity := n.walk.filterMap Event.declared?

/-- The entities that some statements declare. -/
def madeAll (ns : List Node) : List Entity := (walkAll ns).filterMap Event.declared?

@[simp] theorem madeAll_cons (n : Node) (rest : List Node) :
    madeAll (n :: rest) = n.made ++ madeAll rest := by
  simp [made, madeAll, walkAll]

theorem made_declare (v : Variable) (initializer : Node) :
    (declare v initializer).made = [.var v] := by
  simp [made, walk, Event.declared?]

theorem made_assign (target : Variable) (source : Node) : (assign target source).made = [] := by
  simp only [made, walk, List.filterMap_cons, Event.declared?, filterMap_declared?_uses]

theorem made_print (argument : Node) : (print argument).made = [] := by
  simp only [made, walk, filterMap_declared?_uses]

theorem made_shortIf (test : Node) (consequence : List Node) :
    (shortIf test consequence).made = madeAll consequence := by
  simp only [made, madeAll, walk, List.filterMap_append, filterMap_declared?_uses,
    List.nil_append]

theorem made_ifElse (test : Node) (consequence : List Node) (alternate : Node) :
    (ifElse test consequence alternate).made = madeAll consequence ++ alternate.made := by
  simp only [made, madeAll, walk, List.filterMap_append, filterMap_declared?_uses,
    List.nil_append]

theorem made_list (items : List Node) : (list items).made = madeAll items := by
  simp [made, madeAll, walk]

theorem made_whileLoop (test : Node) (body : List Node) :
    (whileLoop test body).made = madeAll body := by
  simp only [made, madeAll, walk, List.filterMap_append, List.filterMap_cons, List.filterMap_nil,
    Event.declared?, filterMap_declared?_uses, List.nil_append, List.append_nil]

theorem made_forLoop (declaration test increment : Node) (body : List Node) (unrolled : Bool) :
    (forLoop declaration test increment body unrolled).made =
      declaration.made ++ (increment.made ++ madeAll body) := by
  simp only [made, madeAll, walk, List.filterMap_append, List.filterMap_cons, List.filterMap_nil,
    Event.declared?, filterMap_declared?_uses, List.nil_append, List.append_nil]

theorem made_forEach (iterator : Variable) (collection : Node) (body : List Node) :
    (forEach iterator collection body).made = .var iterator :: madeAll body := by
  simp only [made, madeAll, walk, List.filterMap_append, List.filterMap_cons, List.filterMap_nil,
    Event.declared?, filterMap_declared?_uses, List.nil_append, List.append_nil]

theorem made_define (f : Function) (body : List Node) :
    (define f body).made = .function f :: (f.params.map .var ++ madeAll body) := by
  have hparams : (f.params.map (fun v => Event.declare (Entity.var v))).filterMap Event.declared? =
      f.params.map .var := by
    simp [List.filterMap_map, Function.comp_def, Event.declared?]
  simp only [made, madeAll, walk, List.filterMap_append, List.filterMap_cons, List.filterMap_nil,
    Event.declared?, hparams, List.append_nil]

mutual

/-- What a statement binds or raises it declares. -/
theorem count_bound_add_raised (inBranch : Bool) (e : Entity) : ∀ n : Node,
    (n.bound inBranch).count e + (n.raised inBranch).count e ≤ n.made.count e
  | declare v _ => by
    rw [made_declare]
    cases inBranch <;> simp [bound, raised]
  | define f _ => by
    rw [made_define, List.count_cons]
    cases inBranch <;> simp [bound, raised, List.count_cons]
  | shortIf _ consequence => by
    have hbody := count_boundAll_add_raisedAll true e consequence
    simp only [made_shortIf, bound, raised, List.count_nil]
    omega
  | ifElse _ consequence alternate => by
    have hbody := count_boundAll_add_raisedAll true e consequence
    have helse := count_bound_add_raised true e alternate
    simp only [made_ifElse, bound, raised, List.count_nil, List.count_append]
    omega
  | list items => by
    have hbody := count_boundAll_add_raisedAll true e items
    simp only [made_list, bound, raised, List.count_nil]
    omega
  | whileLoop _ body => by
    have hbody := count_boundAll_add_raisedAll false e body
    simp only [made_whileLoop, bound, raised, List.count_nil]
    omega
  | forLoop declaration _ _ body true => by
    have hfirst := count_bound_add_raised inBranch e declaration
    have hbody := count_boundAll_add_raisedAll inBranch e body
    simp only [made_forLoop, bound, raised, List.count_append, if_true, Bool.true_and]
    omega
  | forLoop declaration _ _ body false => by
    have hfirst := count_bound_add_raised inBranch e declaration
    have hbody := count_boundAll_add_raisedAll false e body
    simp only [made_forLoop, bound, raised, List.count_append, Bool.false_and, Bool.false_eq_true,
      if_false, List.count_nil]
    omega
  | forEach _ _ body => by
    have hbody := count_boundAll_add_raisedAll false e body
    simp only [made_forEach, bound, raised, List.count_nil, List.count_cons]
    omega
  | null | foreign | bool _ | number _ | var _ | function _ | program _ | print _
  | assign _ _ | exit | ret _ | shortRet | call _ _ _ | unary _ _ _ | binary _ _ _ _
  | conditional _ _ _ _ | string _ _ | array _ _ | index _ _ _ => by simp [bound, raised]

theorem count_boundAll_add_raisedAll (inBranch : Bool) (e : Entity) : ∀ ns : List Node,
    (boundAll inBranch ns).count e + (raisedAll inBranch ns).count e ≤ (madeAll ns).count e
  | [] => Nat.le_refl 0
  | n :: rest => by
    have hfirst := count_bound_add_raised inBranch e n
    have hrest := count_boundAll_add_raisedAll inBranch e rest
    rw [madeAll_cons, boundAll, raisedAll, List.count_append, List.count_append, List.count_append]
    omega

end

theorem mem_madeAll_of_raised {body : List Node} {e : Entity} (h : e ∈ raisedAll false body) :
    e ∈ madeAll body := by
  have hcount := count_boundAll_add_raisedAll false e body
  have hpos := List.count_pos_iff.mpr h
  exact List.count_pos_iff.mp (by omega)

theorem mem_madeAll_of_bound {body : List Node} {e : Entity} (h : e ∈ boundAll false body) :
    e ∈ madeAll body := by
  have hcount := count_boundAll_add_raisedAll false e body
  have hpos := List.count_pos_iff.mpr h
  exact List.count_pos_iff.mp (by omega)

theorem apart_of_nodup {body : List Node} (h : (madeAll body).Nodup) : Apart body := by
  have hcount := fun e => count_boundAll_add_raisedAll false e body
  have hone := List.nodup_iff_count.mp h
  constructor
  · apply List.nodup_iff_count.mpr
    intro e
    have hmade := hcount e
    have hmade' := hone e
    omega
  · intro e hbound hraised
    have hmade := hcount e
    have hmade' := hone e
    have hpos := List.count_pos_iff.mpr hbound
    have hpos' := List.count_pos_iff.mpr hraised
    omega

mutual

/-- A statement that declares each entity once has no clash in its blocks. -/
theorem clear_of_nodup (inBranch : Bool) : ∀ n : Node, n.made.Nodup → n.Clear inBranch
  | shortIf _ consequence, h => by
    rw [made_shortIf] at h
    exact clearAll_of_nodup true consequence h
  | ifElse _ consequence alternate, h => by
    rw [made_ifElse] at h
    have hparts := List.nodup_append.mp h
    exact ⟨clearAll_of_nodup true consequence hparts.1, clear_of_nodup true alternate hparts.2.1⟩
  | list items, h => by
    rw [made_list] at h
    exact clearAll_of_nodup true items h
  | whileLoop _ body, h => by
    rw [made_whileLoop] at h
    exact ⟨apart_of_nodup h, clearAll_of_nodup false body h⟩
  | forLoop _ _ _ body unrolled, h => by
    rw [made_forLoop] at h
    have hbody := (List.nodup_append.mp (List.nodup_append.mp h).2.1).2.1
    cases unrolled with
    | true => exact clearAll_of_nodup inBranch body hbody
    | false => exact ⟨apart_of_nodup hbody, clearAll_of_nodup false body hbody⟩
  | forEach iterator _ body, h => by
    rw [made_forEach] at h
    rcases List.nodup_cons.mp h with ⟨hiterator, hbody⟩
    refine ⟨?_, apart_of_nodup hbody, clearAll_of_nodup false body hbody⟩
    intro hraised
    exact hiterator (mem_madeAll_of_raised hraised)
  | define f body, h => by
    rw [made_define] at h
    rcases List.nodup_append.mp (List.nodup_cons.mp h).2 with ⟨hparams, hbody, hapart⟩
    refine ⟨List.Nodup.of_map _ hparams, ?_, apart_of_nodup hbody,
      clearAll_of_nodup false body hbody⟩
    intro v hv hbound
    exact hapart _ (List.mem_map_of_mem hv) _ (mem_madeAll_of_bound hbound) rfl
  | null, _ | foreign, _ | bool _, _ | number _, _ | var _, _ | function _, _ | program _, _
  | print _, _ | declare _ _, _ | assign _ _, _ | exit, _ | ret _, _ | shortRet, _
  | call _ _ _, _ | unary _ _ _, _ | binary _ _ _ _, _ | conditional _ _ _ _, _
  | string _ _, _ | array _ _, _ | index _ _ _, _ => trivial

theorem clearAll_of_nodup (inBranch : Bool) : ∀ ns : List Node, (madeAll ns).Nodup →
    ClearAll inBranch ns
  | [], _ => trivial
  | n :: rest, h => by
    rw [madeAll_cons] at h
    have hparts := List.nodup_append.mp h
    exact ⟨clear_of_nodup inBranch n hparts.1, clearAll_of_nodup inBranch rest hparts.2.1⟩

end

end Squishc.Node
