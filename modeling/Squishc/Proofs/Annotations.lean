import Squishc.Proofs.Placement
import Squishc.Proofs.TypeRules

/-!
# Types that are written into the tree

Later passes trust the types that resolution writes into a tree and never look
at the operands again.  Outside functions this is safe: inferring all types once
more, from the leaves up, gives the types that are written there, and every node
has parts of the types that the rules ask for.

Inference reads nothing from a tree but its shape, its literals and the types of
its variables.

Main results:

- Theorem `inferred_of_typed`: where the rules hold, the inferred type is the one
  that is written into the tree.
- Theorem `typed_of_mem_outerParts`: the rules hold at every node outside functions.
- Theorem `annotations_follow_rules`: both, for all nodes of a resolved program.
-/

namespace Squishc

namespace Ty

/-- A truth value, or unknown. -/
def IsTruth (t : Ty) : Prop := t = boolean ∨ t = any

/-- An integer, or unknown. -/
def IsPlace (t : Ty) : Prop := t = int ∨ t = any

/-- A number, or unknown. -/
def IsAmount (t : Ty) : Prop := t = int ∨ t = float ∨ t = any

theorem isTruth_of_compatible {t : Ty} (h : t.compatible boolean = true) : t.IsTruth := by
  cases t with
  | boolean => exact .inl rfl
  | any => exact .inr rfl
  | _ => cases h

theorem isPlace_of_compatible {t : Ty} (h : t.compatible int = true) : t.IsPlace := by
  cases t with
  | int => exact .inl rfl
  | any => exact .inr rfl
  | _ => cases h

theorem isAmount_of_isNumber {t : Ty} (h : t.isNumber = true) : t.IsAmount := by
  cases t with
  | int => exact .inl rfl
  | float => exact .inr (.inl rfl)
  | any => exact .inr (.inr rfl)
  | _ => cases h

theorem isAmount_or_string {t : Ty} (h : (t.isNumber || t.compatible string) = true) :
    t.IsAmount ∨ t = string := by
  rcases Bool.or_eq_true_iff.mp h with hnumber | hstring
  · exact .inl (isAmount_of_isNumber hnumber)
  · cases t with
    | string => exact .inr rfl
    | any => exact .inl (.inr (.inr rfl))
    | _ => cases hstring

end Ty

/-- The types of operands that an operator asks for. -/
def Op.Takes (op : Op) (left right : Ty) : Prop :=
  match op with
  | .conj | .disj => left.IsTruth ∧ right.IsTruth
  | .lt | .le | .eq | .ne | .ge | .gt => left.compatible right = true
  | .add => (left.IsAmount ∨ left = .string) ∧ left.compatible right = true
  | _ => left.IsAmount ∧ right.IsAmount ∧ left.compatible right = true

theorem Op.takes_of_accepts {op : Op} {left right : Ty} (h : op.accepts left right = true) :
    op.Takes left right := by
  unfold Op.accepts at h
  cases op with
  | conj | disj =>
    rw [if_pos (by simp), Bool.and_eq_true] at h
    exact ⟨Ty.isTruth_of_compatible h.1, Ty.isTruth_of_compatible h.2⟩
  | lt | le | eq | ne | ge | gt => exact h
  | add =>
    rw [if_neg (by decide), if_neg (by decide), if_pos rfl, Bool.and_eq_true] at h
    exact ⟨Ty.isAmount_or_string h.1, h.2⟩
  | sub | mul | div | mod | pow | not | other =>
    rw [if_neg (by simp), if_neg (by simp [Op.isComparison]), if_neg (by simp)] at h
    rw [Bool.and_eq_true, Bool.and_eq_true] at h
    exact ⟨Ty.isAmount_of_isNumber h.1, Ty.isAmount_of_isNumber h.2.1, h.2.2⟩

namespace Node

/-! ## Inference -/

mutual

/-- The type of an expression, inferred from the leaves up. -/
def inferred : Node → Ty
  | bool _ => .boolean
  | number (.int _) => .int
  | number (.float _) => .float
  | string _ _ => .string
  | var v => v.type
  | array elements _ => .array (inferredFirst elements)
  | index a _ _ => a.inferred.part?.getD .any
  | call _ _ _ => .any
  | unary op operand _ => if op = .not then .boolean else operand.inferred
  | binary op left right _ => op.resultType left.inferred right.inferred
  | conditional consequent _ _ _ => consequent.inferred
  | _ => .any

/-- The type of the first of some expressions, which is unknown if there are none. -/
def inferredFirst : List Node → Ty
  | [] => .any
  | first :: _ => first.inferred

end

mutual

/-- Where the rules on types hold, inference gives the types that are written into the
tree. -/
theorem inferred_of_typed : ∀ n : Node, n.Typed → n.inferred = n.type
  | bool _, _ | number (.int _), _ | number (.float _), _ | var _, _ => rfl
  | string _ _, h => h.symm
  | array elements type, h => by
    rw [inferred, inferredFirst_of_typed elements h.1 h.2]
    rfl
  | index a i type, h => by
    rw [inferred, inferred_of_typed a h.1, h.2.2.2]
    rfl
  | call _ _ _, h => h.2.symm
  | unary op operand type, h => by
    rw [inferred, inferred_of_typed operand h.1]
    rcases h.2 with ⟨rfl, -, rfl⟩ | ⟨rfl, -, rfl⟩
    · rfl
    · rfl
  | binary op left right type, h => by
    rw [inferred, inferred_of_typed left h.1, inferred_of_typed right h.2.1]
    exact h.2.2.2.symm
  | conditional consequent _ _ type, h => by
    rw [inferred, inferred_of_typed consequent h.1]
    exact h.2.2.2.symm
  | null, _ | foreign, _ | function _, _ | list _, _ | program _, _ | print _, _
  | declare _ _, _ | assign _ _, _ | shortIf _ _, _ | ifElse _ _ _, _ | whileLoop _ _, _
  | forLoop _ _ _ _ _, _ | forEach _ _ _, _ | define _ _, _ | exit, _ | ret _, _
  | shortRet, _ => rfl

theorem inferredFirst_of_typed {type : Ty} : ∀ elements : List Node, TypedAll elements →
    ElementsGo type elements → .array (inferredFirst elements) = type
  | [], _, hgo => hgo.symm
  | first :: _, h, hgo => by
    rw [inferredFirst, inferred_of_typed first h.1]
    exact hgo.1.symm

end

/-! ## Nodes outside functions -/

mutual

/-- A node and all nodes below it that stand outside the bodies of functions. -/
def outerParts : Node → List Node
  | list items => list items :: outerPartsAll items
  | program statements => program statements :: outerPartsAll statements
  | print argument => print argument :: argument.outerParts
  | declare v initializer => declare v initializer :: initializer.outerParts
  | assign target source => assign target source :: source.outerParts
  | shortIf test consequence =>
    shortIf test consequence :: (test.outerParts ++ outerPartsAll consequence)
  | ifElse test consequence alternate =>
    ifElse test consequence alternate ::
      (test.outerParts ++ (outerPartsAll consequence ++ alternate.outerParts))
  | whileLoop test body => whileLoop test body :: (test.outerParts ++ outerPartsAll body)
  | forLoop declaration test increment body unrolled =>
    forLoop declaration test increment body unrolled ::
      (declaration.outerParts ++ (test.outerParts ++
        (increment.outerParts ++ outerPartsAll body)))
  | forEach iterator collection body =>
    forEach iterator collection body :: (collection.outerParts ++ outerPartsAll body)
  | ret expression => ret expression :: expression.outerParts
  | call f args type => call f args type :: outerPartsAll args
  | unary op operand type => unary op operand type :: operand.outerParts
  | binary op left right type =>
    binary op left right type :: (left.outerParts ++ right.outerParts)
  | conditional consequent test alternate type =>
    conditional consequent test alternate type ::
      (consequent.outerParts ++ (test.outerParts ++ alternate.outerParts))
  | array elements type => array elements type :: outerPartsAll elements
  | index a i type => index a i type :: (a.outerParts ++ i.outerParts)
  | n => [n]

/-- Some nodes and all nodes below them that stand outside the bodies of functions. -/
def outerPartsAll : List Node → List Node
  | [] => []
  | n :: rest => n.outerParts ++ outerPartsAll rest

end

/-- What the rules on types ask at a node, given the types that are written into its
parts. -/
def KeepsRule : Node → Prop
  | unary op operand _ =>
    (op = .not ∧ operand.type.IsTruth) ∨ (op = .sub ∧ operand.type.IsAmount)
  | binary op left right _ => op.Takes left.type right.type
  | conditional _ test _ _ => test.type.IsTruth
  | array (first :: rest) _ => ∀ e ∈ rest, first.type.compatible e.type = true
  | index a i _ =>
    i.type.IsPlace ∧ ((∃ element, a.type = .array element) ∨ a.type = .string ∨ a.type = .any)
  | declare v initializer => v.type = initializer.type
  | assign target source => target.type.compatible source.type = true
  | shortIf test _ | ifElse test _ _ | whileLoop test _ | forLoop _ test _ _ _ =>
    test.type.IsTruth
  | forEach iterator collection _ =>
    collection.type = .array iterator.type ∨
      (collection.type = iterator.type ∧ iterator.type ∈ [.int, .string, .any])
  | _ => True

theorem indexable_of_part? {t part : Ty} (h : t.part? = some part) :
    (∃ element, t = .array element) ∨ t = .string ∨ t = .any := by
  cases t with
  | array element => exact .inl ⟨element, rfl⟩
  | string => exact .inr (.inl rfl)
  | any => exact .inr (.inr rfl)
  | _ => cases h

theorem item_of_itemType? {t item : Ty} (h : Resolve.itemType? t = some item) :
    t = .array item ∨ (t = item ∧ item ∈ [.int, .string, .any]) := by
  cases t with
  | array element =>
    cases h
    exact .inl rfl
  | int | string | any =>
    cases h
    exact .inr ⟨rfl, by simp⟩
  | _ => cases h

/-- A node that keeps the rules with all its parts keeps the one at the node itself. -/
theorem keepsRule_of_typed {n : Node} (h : n.Typed) : n.KeepsRule := by
  cases n with
  | unary op operand type =>
    rcases h.2 with ⟨hop, hoperand, -⟩ | ⟨hop, hoperand, -⟩
    · exact .inl ⟨hop, Ty.isTruth_of_compatible hoperand⟩
    · exact .inr ⟨hop, Ty.isAmount_of_isNumber hoperand⟩
  | binary op left right type => exact Op.takes_of_accepts h.2.2.1
  | conditional consequent test alternate type => exact Ty.isTruth_of_compatible h.2.1.2
  | array elements type =>
    cases elements with
    | nil => trivial
    | cons first rest => exact h.2.2
  | index a i type => exact ⟨Ty.isPlace_of_compatible h.2.2.1, indexable_of_part? h.2.2.2⟩
  | declare v initializer => exact h.2
  | assign target source => exact h.2
  | shortIf test consequence => exact Ty.isTruth_of_compatible h.1.2
  | ifElse test consequence alternate => exact Ty.isTruth_of_compatible h.1.2
  | whileLoop test body => exact Ty.isTruth_of_compatible h.1.2
  | forLoop declaration test increment body unrolled => exact Ty.isTruth_of_compatible h.2.1.2
  | forEach iterator collection body => exact item_of_itemType? h.2.1
  | _ => trivial

/-! ## The rules at every node -/

mutual

theorem typed_of_mem_outerParts_expr : ∀ {e n : Node}, e.isExpr = true → e.Typed →
    n ∈ e.outerParts → n.Typed
  | bool _, n, _, h, hn | number _, n, _, h, hn | var _, n, _, h, hn
  | string _ _, n, _, h, hn => by
    rcases List.mem_singleton.mp hn with rfl
    exact h
  | array elements _, n, hexpr, h, hn => by
    rcases List.mem_cons.mp hn with rfl | hn
    · exact h
    · exact typed_of_mem_outerPartsAll_expr hexpr h.1 hn
  | call _ args _, n, hexpr, h, hn => by
    rcases List.mem_cons.mp hn with rfl | hn
    · exact h
    · exact typed_of_mem_outerPartsAll_expr hexpr h.1 hn
  | index a i _, n, hexpr, h, hn => by
    simp only [isExpr, Bool.and_eq_true] at hexpr
    rw [outerParts, List.mem_cons, List.mem_append] at hn
    rcases hn with rfl | hn | hn
    · exact h
    · exact typed_of_mem_outerParts_expr hexpr.1 h.1 hn
    · exact typed_of_mem_outerParts_expr hexpr.2 h.2.1 hn
  | unary _ operand _, n, hexpr, h, hn => by
    rcases List.mem_cons.mp hn with rfl | hn
    · exact h
    · exact typed_of_mem_outerParts_expr (e := operand) hexpr h.1 hn
  | binary _ left right _, n, hexpr, h, hn => by
    simp only [isExpr, Bool.and_eq_true] at hexpr
    rw [outerParts, List.mem_cons, List.mem_append] at hn
    rcases hn with rfl | hn | hn
    · exact h
    · exact typed_of_mem_outerParts_expr hexpr.1 h.1 hn
    · exact typed_of_mem_outerParts_expr hexpr.2 h.2.1 hn
  | conditional consequent test alternate _, n, hexpr, h, hn => by
    simp only [isExpr, Bool.and_eq_true] at hexpr
    rw [outerParts, List.mem_cons, List.mem_append, List.mem_append] at hn
    rcases hn with rfl | hn | hn | hn
    · exact h
    · exact typed_of_mem_outerParts_expr hexpr.1 h.1 hn
    · exact typed_of_mem_outerParts_expr hexpr.2.1 h.2.1.1 hn
    · exact typed_of_mem_outerParts_expr hexpr.2.2 h.2.2.1 hn

theorem typed_of_mem_outerPartsAll_expr : ∀ {es : List Node} {n : Node}, allExpr es = true →
    TypedAll es → n ∈ outerPartsAll es → n.Typed
  | [], n, _, _, hn => by cases hn
  | e :: rest, n, hexpr, h, hn => by
    simp only [allExpr, Bool.and_eq_true] at hexpr
    rcases List.mem_append.mp hn with hn | hn
    · exact typed_of_mem_outerParts_expr hexpr.1 h.1 hn
    · exact typed_of_mem_outerPartsAll_expr hexpr.2 h.2 hn

end

mutual

/-- The rules hold at every node outside functions.  A return is no such node, since it
stands in a function. -/
theorem typed_of_mem_outerParts : ∀ {s n : Node} {place : Place}, s.formed = true → s.Typed →
    s.placed place = true → place.inFunction = false → n ∈ s.outerParts → n.Typed
  | print argument, n, place, hform, h, _, _, hn => by
    rcases List.mem_cons.mp hn with rfl | hn
    · exact h
    · exact typed_of_mem_outerParts_expr hform h hn
  | declare _ initializer, n, place, hform, h, _, _, hn => by
    rcases List.mem_cons.mp hn with rfl | hn
    · exact h
    · exact typed_of_mem_outerParts_expr hform h.1 hn
  | assign _ source, n, place, hform, h, _, _, hn => by
    rcases List.mem_cons.mp hn with rfl | hn
    · exact h
    · exact typed_of_mem_outerParts_expr hform h.1 hn
  | call _ args _, n, place, hform, h, _, _, hn => by
    rcases List.mem_cons.mp hn with rfl | hn
    · exact h
    · exact typed_of_mem_outerPartsAll_expr hform h.1 hn
  | shortIf test consequence, n, place, hform, h, hplace, hout, hn => by
    simp only [formed, Bool.and_eq_true] at hform
    simp only [placed, Bool.and_eq_true] at hplace
    rw [outerParts, List.mem_cons, List.mem_append] at hn
    rcases hn with rfl | hn | hn
    · exact h
    · exact typed_of_mem_outerParts_expr hform.1 h.1.1 hn
    · exact typed_of_mem_outerPartsAll hform.2 h.2 hplace.2 hout hn
  | ifElse test consequence alternate, n, place, hform, h, hplace, hout, hn => by
    simp only [formed, Bool.and_eq_true] at hform
    simp only [placed, Bool.and_eq_true] at hplace
    rw [outerParts, List.mem_cons, List.mem_append, List.mem_append] at hn
    rcases hn with rfl | hn | hn | hn
    · exact h
    · exact typed_of_mem_outerParts_expr hform.1 h.1.1 hn
    · exact typed_of_mem_outerPartsAll hform.2.1 h.2.1 hplace.2.1 hout hn
    · exact typed_of_mem_outerParts hform.2.2.2 h.2.2 hplace.2.2 hout hn
  | list items, n, place, hform, h, hplace, hout, hn => by
    rcases List.mem_cons.mp hn with rfl | hn
    · exact h
    · exact typed_of_mem_outerPartsAll hform h hplace hout hn
  | whileLoop test body, n, place, hform, h, hplace, hout, hn => by
    simp only [formed, Bool.and_eq_true] at hform
    simp only [placed, Bool.and_eq_true] at hplace
    rw [outerParts, List.mem_cons, List.mem_append] at hn
    rcases hn with rfl | hn | hn
    · exact h
    · exact typed_of_mem_outerParts_expr hform.1 h.1.1 hn
    · exact typed_of_mem_outerPartsAll hform.2 h.2 hplace.2 hout hn
  | forLoop declaration test increment body unrolled, n, place, hform, h, hplace, hout, hn => by
    simp only [formed, Bool.and_eq_true] at hform
    simp only [placed, Bool.and_eq_true] at hplace
    rw [outerParts, List.mem_cons, List.mem_append, List.mem_append, List.mem_append] at hn
    rcases hn with rfl | hn | hn | hn | hn
    · exact h
    · exact typed_of_mem_outerParts hform.1.2 h.1 hplace.1 hout hn
    · exact typed_of_mem_outerParts_expr hform.2.1 h.2.1.1 hn
    · exact typed_of_mem_outerParts hform.2.2.1.2 h.2.2.1 hplace.2.2.1 hout hn
    · refine typed_of_mem_outerPartsAll hform.2.2.2 h.2.2.2 hplace.2.2.2 ?_ hn
      cases unrolled <;> exact hout
  | forEach iterator collection body, n, place, hform, h, hplace, hout, hn => by
    simp only [formed, Bool.and_eq_true] at hform
    simp only [placed, Bool.and_eq_true] at hplace
    rw [outerParts, List.mem_cons, List.mem_append] at hn
    rcases hn with rfl | hn | hn
    · exact h
    · exact typed_of_mem_outerParts_expr hform.1 h.1 hn
    · exact typed_of_mem_outerPartsAll hform.2 h.2.2 hplace.2 hout hn
  | define _ _, n, _, _, h, _, _, hn | exit, n, _, _, h, _, _, hn
  | shortRet, n, _, _, h, _, _, hn => by
    rcases List.mem_singleton.mp hn with rfl
    exact h
  | ret _, n, place, _, _, hplace, hout, _ => by
    rw [placed, hout] at hplace
    cases hplace

theorem typed_of_mem_outerPartsAll : ∀ {ss : List Node} {n : Node} {place : Place},
    allFormed ss = true → TypedAll ss → allPlaced place ss = true → place.inFunction = false →
    n ∈ outerPartsAll ss → n.Typed
  | [], n, _, _, _, _, _, hn => by cases hn
  | s :: rest, n, place, hform, h, hplace, hout, hn => by
    simp only [allFormed, Bool.and_eq_true] at hform
    simp only [allPlaced, Bool.and_eq_true] at hplace
    rcases List.mem_append.mp hn with hn | hn
    · exact typed_of_mem_outerParts hform.1.2 h.1 hplace.1 hout hn
    · exact typed_of_mem_outerPartsAll hform.2 h.2 hplace.2 hout hn

end

end Node

/-! ## Resolved programs -/

theorem resolve_typed_outerParts {p : Surface.Program} {t : Node} (h : resolve p = .ok t)
    {n : Node} (hn : n ∈ t.outerParts) : n.Typed := by
  have htyped := resolve_typed h
  have hplaced := resolve_placed h
  rcases Node.eq_program_of_isProgram (resolve_isProgram h) with ⟨statements, rfl, hform⟩
  rcases List.mem_cons.mp hn with rfl | hn
  · exact htyped
  · exact Node.typed_of_mem_outerPartsAll hform htyped hplaced rfl hn

/-- At every node of a resolved program that stands outside functions, the type that is
written into the tree is the inferred one, and the parts of the node have the types that
the rules ask for. -/
theorem annotations_follow_rules {p : Surface.Program} {t : Node} (h : resolve p = .ok t) :
    ∀ n ∈ t.outerParts, (∀ type, n.type? = some type → n.inferred = type) ∧ n.KeepsRule := by
  intro n hn
  have htyped := resolve_typed_outerParts h hn
  refine ⟨?_, Node.keepsRule_of_typed htyped⟩
  intro type htype
  rw [Node.inferred_of_typed n htyped, Node.type, htype]
  rfl

/-- A function whose body breaks the rules, and outside of it a sum that has its type from
the right operand, an array of one string that is chosen by a test, and a loop over it. -/
def mixedTypes : Surface.Program :=
  ⟨[.function ⟨1, 1⟩ "g" [⟨⟨1, 5⟩, "a"⟩]
      [.ret ⟨1, 8⟩ (some (.binary ⟨1, 15⟩ .sub (.bool ⟨1, 15⟩ true) (.string ⟨1, 22⟩ "s")))],
    .declare ⟨⟨2, 1⟩, "n",
      .binary ⟨2, 12⟩ .add (.call ⟨2, 12⟩ "g" [.int ⟨2, 15⟩ 1]) (.int ⟨2, 19⟩ 2)⟩,
    .declare ⟨⟨3, 1⟩, "words", .array ⟨3, 16⟩
      [.conditional ⟨3, 17⟩ (.string ⟨3, 17⟩ "ab")
        (.binary ⟨3, 25⟩ .lt (.var ⟨3, 25⟩ "n") (.int ⟨3, 29⟩ 3)) (.var ⟨3, 41⟩ "n")]⟩,
    .forEach ⟨4, 1⟩ (.var ⟨4, 1⟩ "words") "w"
      [.print ⟨4, 15⟩ (.index ⟨4, 21⟩ (.var ⟨4, 21⟩ "w") (.unary ⟨4, 23⟩ .sub (.var ⟨4, 24⟩ "n")))]]⟩

/-- The sum in that program. -/
def mixedSum : Node :=
  .binary .add (.call ⟨0, "g", [⟨1, "a", .any⟩]⟩ [.number (.int 1)] .any) (.number (.int 2)) .int

theorem mixedTypes_follow_rules :
    ∃ t, resolve mixedTypes = .ok t ∧ t.outerParts.length = 22 ∧ mixedSum ∈ t.outerParts ∧
      mixedSum.type? = some .int ∧ mixedSum.inferred = .int ∧ mixedSum.KeepsRule ∧
      ∀ n ∈ t.outerParts, (∀ type, n.type? = some type → n.inferred = type) ∧ n.KeepsRule := by
  have hresolve : ∃ t, resolve mixedTypes = .ok t ∧ t.outerParts.length = 22 ∧
      t.outerParts[3]? = some mixedSum := ⟨_, rfl, rfl, rfl⟩
  rcases hresolve with ⟨t, ht, hlength, hat⟩
  have hmem := List.mem_of_getElem? hat
  have hrules := annotations_follow_rules ht
  exact ⟨t, ht, hlength, hmem, rfl, (hrules mixedSum hmem).1 .int rfl, (hrules mixedSum hmem).2,
    hrules⟩

end Squishc
