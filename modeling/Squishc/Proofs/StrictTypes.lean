import Squishc.Proofs.OptimizeScope
import Squishc.Proofs.TypeRules

/-!
# Strict types

Where there are no functions and no empty arrays and both sides of a conditional
have the same type, the unknown type does not occur.  A resolved program of this
sort has types in a strict sense, in which every type is known and going together
means being the same.

Variables have known types because each is declared with an initializer or as the
iterator of a loop, and what stands there only uses variables that are known
already.

Main results:

- Theorem `hasType_of_typed`: a resolved expression is strictly typed.
- Theorem `fits_of_typed`: so is a resolved statement.
- Theorem `resolve_fits`: so is a resolved program.
-/

namespace Squishc

/-! ## Known types -/

namespace Ty

/-- Whether a type is fully known. -/
def concrete : Ty → Bool
  | boolean | int | float | string => true
  | array element => element.concrete
  | void | any => false

/-- Known types only go with themselves. -/
theorem eq_of_compatible {a b : Ty} (ha : a.concrete = true) (hb : b.concrete = true)
    (h : a.compatible b = true) : a = b := by
  induction a generalizing b with
  | array element ih =>
    cases b with
    | array other => exact congrArg array (ih ha hb h)
    | any => cases hb
    | _ => cases h
  | void | any => cases ha
  | boolean | int | float | string =>
    cases b with
    | any => cases hb
    | _ => exact same_iff_eq.mp h

theorem isNumeric_of_isNumber {t : Ty} (ht : t.concrete = true) (h : t.isNumber = true) :
    t.isNumeric = true := by
  cases t with
  | int | float => rfl
  | any => cases ht
  | _ => cases h

theorem concrete_of_isNumeric {t : Ty} (h : t.isNumeric = true) : t.concrete = true := by
  cases t with
  | int | float => rfl
  | _ => cases h

end Ty

/-- What an operator takes among known types: two truth values, two values to compare
or two to compute with.  In the last two cases they have the same type. -/
theorem Op.accepts_of_concrete (op : Op) {left right : Ty} (hleft : left.concrete = true)
    (hright : right.concrete = true) (h : op.accepts left right = true) :
    ((op = .conj ∨ op = .disj) ∧ left = .boolean ∧ right = .boolean) ∨
      (op.isComparison = true ∧ left = right) ∨
      (op.givesTruth = false ∧ left = right ∧
        (left.isNumeric = true ∨ op = .add ∧ left = .string)) := by
  unfold Op.accepts at h
  split at h
  · next hlogic =>
    rw [Bool.and_eq_true] at h
    refine .inl ⟨by simpa using hlogic, ?_, ?_⟩
    · exact Ty.eq_of_compatible hleft rfl h.1
    · exact Ty.eq_of_compatible hright rfl h.2
  · next hlogic =>
    split at h
    · next hcompare => exact .inr (.inl ⟨hcompare, Ty.eq_of_compatible hleft hright h⟩)
    · next hcompare =>
      have hop : op.givesTruth = false := by
        rw [Op.givesTruth, Bool.eq_false_iff.mpr hlogic, Bool.eq_false_iff.mpr hcompare]
        rfl
      refine .inr (.inr ⟨hop, ?_⟩)
      split at h
      · next hadd =>
        rw [Bool.and_eq_true, Bool.or_eq_true] at h
        refine ⟨Ty.eq_of_compatible hleft hright h.2, ?_⟩
        rcases h.1 with hnumber | hstring
        · exact .inl (Ty.isNumeric_of_isNumber hleft hnumber)
        · exact .inr ⟨hadd, Ty.eq_of_compatible hleft rfl hstring⟩
      · rw [Bool.and_eq_true, Bool.and_eq_true] at h
        exact ⟨Ty.eq_of_compatible hleft hright h.2.2,
          .inl (Ty.isNumeric_of_isNumber hleft h.1)⟩

namespace Node

/-! ## Programs without unknown types -/

mutual

/-- Whether a node has no functions, calls or returns in it and no empty arrays, and
both sides of each conditional have the same type. -/
def firstOrder : Node → Bool
  | define _ _ | call _ _ _ | ret _ | shortRet | function _ => false
  | array elements _ => !elements.isEmpty && allFirstOrder elements
  | index a i _ => a.firstOrder && i.firstOrder
  | unary _ operand _ => operand.firstOrder
  | binary _ left right _ => left.firstOrder && right.firstOrder
  | conditional consequent test alternate _ =>
    (consequent.firstOrder && (test.firstOrder && alternate.firstOrder)) &&
      consequent.type = alternate.type
  | print argument => argument.firstOrder
  | declare _ initializer => initializer.firstOrder
  | assign _ source => source.firstOrder
  | shortIf test consequence => test.firstOrder && allFirstOrder consequence
  | ifElse test consequence alternate =>
    test.firstOrder && (allFirstOrder consequence && alternate.firstOrder)
  | list items => allFirstOrder items
  | program statements => allFirstOrder statements
  | whileLoop test body => test.firstOrder && allFirstOrder body
  | forLoop declaration test increment body _ =>
    declaration.firstOrder && (test.firstOrder && (increment.firstOrder && allFirstOrder body))
  | forEach _ collection body => collection.firstOrder && allFirstOrder body
  | _ => true

/-- Whether this is true of some nodes. -/
def allFirstOrder : List Node → Bool
  | [] => true
  | n :: rest => n.firstOrder && allFirstOrder rest

end

/-! ## Strict types -/

/-- An expression has a type that is fully known. -/
inductive HasType : Node → Ty → Prop where
  | bool (b : Bool) : HasType (bool b) .boolean
  | number (a : Num) : HasType (number a) (number a).type
  | string (s : String) : HasType (string s .string) .string
  | var {v : Variable} (hknown : v.type.concrete = true) : HasType (var v) v.type
  | array {elements : List Node} {element : Ty} (hknown : element.concrete = true)
      (helements : ∀ e ∈ elements, HasType e element) :
      HasType (array elements (.array element)) (.array element)
  | element {a i : Node} {element : Ty} (ha : HasType a (.array element)) (hi : HasType i .int) :
      HasType (index a i element) element
  | character {a i : Node} (ha : HasType a .string) (hi : HasType i .int) :
      HasType (index a i .string) .string
  | negation {operand : Node} (h : HasType operand .boolean) :
      HasType (unary .not operand .boolean) .boolean
  | sign {operand : Node} {type : Ty} (hnumeric : type.isNumeric = true)
      (h : HasType operand type) : HasType (unary .sub operand type) type
  | logic {op : Op} {left right : Node} (hop : op = .conj ∨ op = .disj)
      (hleft : HasType left .boolean) (hright : HasType right .boolean) :
      HasType (binary op left right .boolean) .boolean
  | comparison {op : Op} {left right : Node} {type : Ty} (hop : op.isComparison = true)
      (hleft : HasType left type) (hright : HasType right type) :
      HasType (binary op left right .boolean) .boolean
  | join {left right : Node} (hleft : HasType left .string) (hright : HasType right .string) :
      HasType (binary .add left right .string) .string
  | arithmetic {op : Op} {left right : Node} {type : Ty} (hop : op.givesTruth = false)
      (hnumeric : type.isNumeric = true) (hleft : HasType left type)
      (hright : HasType right type) : HasType (binary op left right type) type
  | conditional {consequent test alternate : Node} {type : Ty}
      (hconsequent : HasType consequent type) (htest : HasType test .boolean)
      (halternate : HasType alternate type) :
      HasType (conditional consequent test alternate type) type

/-- A statement has expressions of fully known types in it, each of the type that is
asked for. -/
inductive Fits : Node → Prop where
  | print {argument : Node} {type : Ty} (h : HasType argument type) : Fits (print argument)
  | declare {v : Variable} {initializer : Node} (h : HasType initializer v.type) :
      Fits (declare v initializer)
  | assign {target : Variable} {source : Node} (h : HasType source target.type) :
      Fits (assign target source)
  | shortIf {test : Node} {consequence : List Node} (htest : HasType test .boolean)
      (hconsequence : ∀ n ∈ consequence, Fits n) : Fits (shortIf test consequence)
  | ifElse {test alternate : Node} {consequence : List Node} (htest : HasType test .boolean)
      (hconsequence : ∀ n ∈ consequence, Fits n) (halternate : ∀ n ∈ alternate.spread, Fits n) :
      Fits (ifElse test consequence alternate)
  | whileLoop {test : Node} {body : List Node} (htest : HasType test .boolean)
      (hbody : ∀ n ∈ body, Fits n) : Fits (whileLoop test body)
  | forLoop {declaration test increment : Node} {body : List Node} {unrolled : Bool}
      (hdeclaration : Fits declaration) (htest : HasType test .boolean)
      (hincrement : Fits increment) (hbody : ∀ n ∈ body, Fits n) :
      Fits (forLoop declaration test increment body unrolled)
  | forEach {iterator : Variable} {collection : Node} {body : List Node} {type : Ty}
      (hcollection : HasType collection type)
      (hitem : Resolve.itemType? type = some iterator.type) (hbody : ∀ n ∈ body, Fits n) :
      Fits (forEach iterator collection body)
  | exit : Fits exit
  | program {statements : List Node} (h : ∀ n ∈ statements, Fits n) : Fits (program statements)

theorem HasType.concrete {e : Node} {t : Ty} (h : HasType e t) : t.concrete = true := by
  induction h with
  | number a => cases a <;> rfl
  | var hknown => exact hknown
  | array hknown _ _ => exact hknown
  | element _ _ ha _ => exact ha
  | sign hnumeric _ _ => exact Ty.concrete_of_isNumeric hnumeric
  | arithmetic _ hnumeric _ _ _ _ => exact Ty.concrete_of_isNumeric hnumeric
  | conditional _ _ _ hconsequent _ _ => exact hconsequent
  | _ => rfl

/-! ## Resolved expressions -/

/-- The variables among some entities have fully known types. -/
def Known (known : List Entity) : Prop := ∀ v, .var v ∈ known → v.type.concrete = true

theorem Known.mono {known fewer : List Entity} (h : Known known) (hfewer : fewer ⊆ known) :
    Known fewer := by
  intro v hv
  exact h v (hfewer hv)

theorem Known.append {known more : List Entity} (h : Known known) (hmore : Known more) :
    Known (known ++ more) := by
  intro v hv
  rcases List.mem_append.mp hv with hv | hv
  · exact h v hv
  · exact hmore v hv

section Operations

variable {left right operand : Node} {leftType rightType operandType type : Ty}

theorem hasType_unary {op : Op} (h : HasType operand operandType)
    (hgoes : OperandGoes op operandType type) : HasType (unary op operand type) type := by
  rcases hgoes with ⟨rfl, hboolean, rfl⟩ | ⟨rfl, hnumber, rfl⟩
  · have heq := Ty.eq_of_compatible h.concrete rfl hboolean
    subst heq
    exact .negation h
  · exact .sign (Ty.isNumeric_of_isNumber h.concrete hnumber) h

/-- Operands of known types that an operator takes give an operation of a known
type. -/
theorem hasType_binary {op : Op} (hleft : HasType left leftType) (hright : HasType right rightType)
    (haccepts : op.accepts leftType rightType = true) :
    HasType (binary op left right (op.resultType leftType rightType))
      (op.resultType leftType rightType) := by
  rcases op.accepts_of_concrete hleft.concrete hright.concrete haccepts with
    ⟨hop, rfl, rfl⟩ | ⟨hop, rfl⟩ | ⟨hop, rfl, hkind⟩
  · have htype : op.resultType .boolean .boolean = .boolean := by
      rcases hop with rfl | rfl <;> rfl
    rw [htype]
    exact .logic hop hleft hright
  · have htype : op.resultType leftType leftType = .boolean := by
      rw [Op.resultType, Op.givesTruth, hop, Bool.or_true]
      rfl
    rw [htype]
    exact .comparison hop hleft hright
  · have htype : op.resultType leftType leftType = leftType := by
      rw [Op.resultType, hop]
      cases leftType <;> rfl
    rw [htype]
    rcases hkind with hnumeric | ⟨rfl, rfl⟩
    · exact .arithmetic hop hnumeric hleft hright
    · exact .join hleft hright

theorem hasType_index {a i : Node} {arrayType : Ty} (ha : HasType a arrayType)
    (hi : HasType i operandType) (hint : operandType.compatible .int = true)
    (hpart : arrayType.part? = some type) : HasType (index a i type) type := by
  have heq := Ty.eq_of_compatible hi.concrete rfl hint
  subst heq
  cases arrayType with
  | array element =>
    cases hpart
    exact .element ha hi
  | string =>
    cases hpart
    exact .character ha hi
  | any => cases ha.concrete
  | _ => cases hpart

theorem hasType_array {elements : List Node} (hne : elements ≠ [])
    (h : ∀ e ∈ elements, HasType e e.type) (hgo : ElementsGo type elements) :
    HasType (array elements type) type := by
  cases elements with
  | nil => exact (hne rfl).elim
  | cons first rest =>
    rcases hgo with ⟨rfl, hrest⟩
    have hfirst := h first List.mem_cons_self
    refine .array hfirst.concrete ?_
    intro e he
    rcases List.mem_cons.mp he with rfl | he'
    · exact hfirst
    · have htype := h e he
      rw [Ty.eq_of_compatible hfirst.concrete htype.concrete (hrest e he')]
      exact htype

end Operations

mutual

/-- An expression that keeps the rules on types has a known type if its variables
do. -/
theorem hasType_of_typed : ∀ e : Node, e.isExpr = true → e.Typed → e.firstOrder = true →
    Known e.mentioned → HasType e e.type
  | bool b, _, _, _, _ => .bool b
  | number a, _, _, _, _ => .number a
  | string s type, _, ht, _, _ => by
    have heq : type = .string := ht
    subst heq
    exact .string s
  | var v, _, _, _, hknown => .var (hknown v List.mem_cons_self)
  | array elements type, h, ht, hfirst, hknown => by
    simp only [firstOrder, Bool.and_eq_true, Bool.not_eq_true', List.isEmpty_eq_false_iff] at hfirst
    exact hasType_array hfirst.1 (hasType_of_typedAll elements h ht.1 hfirst.2 hknown) ht.2
  | index a i type, h, ht, hfirst, hknown => by
    simp only [isExpr, firstOrder, Bool.and_eq_true] at h hfirst
    have ha := hasType_of_typed a h.1 ht.1 hfirst.1 (hknown.mono (List.subset_append_left _ _))
    have hi := hasType_of_typed i h.2 ht.2.1 hfirst.2 (hknown.mono (List.subset_append_right _ _))
    exact hasType_index ha hi ht.2.2.1 ht.2.2.2
  | unary op operand type, h, ht, hfirst, hknown =>
    hasType_unary (hasType_of_typed operand h ht.1 hfirst hknown) ht.2
  | binary op left right type, h, ht, hfirst, hknown => by
    simp only [isExpr, firstOrder, Bool.and_eq_true] at h hfirst
    rcases ht with ⟨hl, hr, haccepts, rfl⟩
    exact hasType_binary
      (hasType_of_typed left h.1 hl hfirst.1 (hknown.mono (List.subset_append_left _ _)))
      (hasType_of_typed right h.2 hr hfirst.2 (hknown.mono (List.subset_append_right _ _)))
      haccepts
  | conditional consequent test alternate type, h, ht, hfirst, hknown => by
    simp only [isExpr, firstOrder, Bool.and_eq_true, decide_eq_true_eq] at h hfirst
    rcases ht with ⟨hc, ⟨htest, hboolean⟩, ha, rfl⟩
    have hmore := hknown.mono (List.subset_append_right consequent.mentioned _)
    have hconsequent := hasType_of_typed consequent h.1 hc hfirst.1.1
      (hknown.mono (List.subset_append_left _ _))
    have htest := hasType_of_typed test h.2.1 htest hfirst.1.2.1
      (hmore.mono (List.subset_append_left _ _))
    have halternate := hasType_of_typed alternate h.2.2 ha hfirst.1.2.2
      (hmore.mono (List.subset_append_right _ _))
    rw [Ty.eq_of_compatible htest.concrete rfl hboolean] at htest
    rw [← hfirst.2] at halternate
    exact .conditional hconsequent htest halternate

theorem hasType_of_typedAll : ∀ es : List Node, allExpr es = true → TypedAll es →
    allFirstOrder es = true → Known (mentionedAll es) → ∀ e ∈ es, HasType e e.type
  | [], _, _, _, _ => fun _ he => by cases he
  | first :: rest, h, ht, hfirst, hknown => by
    simp only [allExpr, allFirstOrder, Bool.and_eq_true] at h hfirst
    exact List.forall_mem_cons.mpr
      ⟨hasType_of_typed first h.1 ht.1 hfirst.1 (hknown.mono (List.subset_append_left _ _)),
        hasType_of_typedAll rest h.2 ht.2 hfirst.2 (hknown.mono (List.subset_append_right _ _))⟩

end

/-! ## Resolved statements -/

section Tests

variable {known : List Entity} {e : Node}

theorem hasType_of_scoped (h : e.isExpr = true) (ht : e.Typed) (hfirst : e.firstOrder = true)
    (hscoped : e.mentioned ⊆ known) (hknown : Known known) : HasType e e.type :=
  hasType_of_typed e h ht hfirst (hknown.mono hscoped)

theorem hasType_test (h : e.isExpr = true) (ht : e.Typed ∧ e.IsTest)
    (hfirst : e.firstOrder = true) (hscoped : e.mentioned ⊆ known) (hknown : Known known) :
    HasType e .boolean := by
  have htype := hasType_of_scoped h ht.1 hfirst hscoped hknown
  rwa [Ty.eq_of_compatible htype.concrete rfl ht.2] at htype

end Tests

theorem known_nil : Known [] := by
  intro v hv
  cases hv

theorem known_singleton {v : Variable} (h : v.type.concrete = true) : Known [.var v] := by
  intro w hw
  cases List.mem_singleton.mp hw
  exact h

/-- The items of a collection of a known type have a known type. -/
theorem concrete_itemType {t item : Ty} (ht : t.concrete = true)
    (h : Resolve.itemType? t = some item) : item.concrete = true := by
  cases t with
  | any => cases ht
  | array element =>
    cases h
    exact ht
  | int | string =>
    cases h
    rfl
  | _ => cases h

mutual

/-- A statement that keeps the rules on types fits, and so do the items of a list of
statements.  What it makes known has a known type. -/
theorem fits_of_typed : ∀ (n : Node) {known : List Entity}, n.formed = true → n.Typed →
    n.firstOrder = true → n.Scoped known → Known known →
    (∀ m ∈ n.spread, m.Fits) ∧ Known n.exports
  | print argument, _, h, ht, hfirst, hscoped, hknown => by
    have hargument := hasType_of_scoped h ht hfirst hscoped hknown
    exact ⟨List.forall_mem_singleton.mpr (.print hargument), known_nil⟩
  | declare v initializer, _, h, ht, hfirst, hscoped, hknown => by
    have hinitializer := hasType_of_scoped h ht.1 hfirst hscoped hknown
    rw [← ht.2] at hinitializer
    exact ⟨List.forall_mem_singleton.mpr (.declare hinitializer),
      known_singleton hinitializer.concrete⟩
  | assign target source, _, h, ht, hfirst, hscoped, hknown => by
    have hsource := hasType_of_scoped h ht.1 hfirst hscoped.2 hknown
    -- The target was declared before, so its type is known and not just compatible.
    rw [← Ty.eq_of_compatible (hknown target hscoped.1) hsource.concrete ht.2] at hsource
    exact ⟨List.forall_mem_singleton.mpr (.assign hsource), known_nil⟩
  | shortIf test consequence, _, h, ht, hfirst, hscoped, hknown => by
    simp only [formed, firstOrder, Bool.and_eq_true] at h hfirst
    have htest := hasType_test h.1 ht.1 hfirst.1 hscoped.1 hknown
    have hbody := fits_of_typedAll consequence h.2 ht.2 hfirst.2 hscoped.2 hknown
    exact ⟨List.forall_mem_singleton.mpr (.shortIf htest hbody.1), hbody.2⟩
  | ifElse test consequence alternate, _, h, ht, hfirst, hscoped, hknown => by
    simp only [formed, firstOrder, Bool.and_eq_true] at h hfirst
    have htest := hasType_test h.1 ht.1 hfirst.1 hscoped.1 hknown
    have hbody := fits_of_typedAll consequence h.2.1 ht.2.1 hfirst.2.1 hscoped.2.1 hknown
    -- What one branch declares is known in the next.
    have helse := fits_of_typed alternate h.2.2.2 ht.2.2 hfirst.2.2 hscoped.2.2
      (hknown.append hbody.2)
    exact ⟨List.forall_mem_singleton.mpr (.ifElse htest hbody.1 helse.1),
      hbody.2.append helse.2⟩
  | list items, _, h, ht, hfirst, hscoped, hknown =>
    fits_of_typedAll items h ht hfirst hscoped hknown
  | whileLoop test body, _, h, ht, hfirst, hscoped, hknown => by
    simp only [formed, firstOrder, Bool.and_eq_true] at h hfirst
    have htest := hasType_test h.1 ht.1 hfirst.1 hscoped.1 hknown
    have hbody := fits_of_typedAll body h.2 ht.2 hfirst.2 hscoped.2 hknown
    exact ⟨List.forall_mem_singleton.mpr (.whileLoop htest hbody.1), known_nil⟩
  | forLoop declaration test increment body _, _, h, ht, hfirst, hscoped, hknown => by
    simp only [formed, firstOrder, Bool.and_eq_true] at h hfirst
    rcases h with ⟨⟨hkind, hdeclaration⟩, htest, ⟨hkind', hincrement⟩, hbody⟩
    have hd := fits_of_typed declaration hdeclaration ht.1 hfirst.1 hscoped.1 hknown
    have hinner := hknown.append hd.2
    have ht' := hasType_test htest ht.2.1 hfirst.2.1 hscoped.2.1 hinner
    have hi := fits_of_typed increment hincrement ht.2.2.1 hfirst.2.2.1 hscoped.2.2.1 hinner
    have hb := fits_of_typedAll body hbody ht.2.2.2 hfirst.2.2.2 hscoped.2.2.2 hinner
    have hdeclares : declaration.Fits := by
      cases declaration with
      | declare v initializer => exact hd.1 _ List.mem_cons_self
      | _ => cases hkind
    have hassigns : increment.Fits := by
      cases increment with
      | assign target source => exact hi.1 _ List.mem_cons_self
      | _ => cases hkind'
    exact ⟨List.forall_mem_singleton.mpr (.forLoop hdeclares ht' hassigns hb.1), known_nil⟩
  | forEach iterator collection body, _, h, ht, hfirst, hscoped, hknown => by
    simp only [formed, firstOrder, Bool.and_eq_true] at h hfirst
    have hcollection := hasType_of_scoped h.1 ht.1 hfirst.1 hscoped.1 hknown
    have hitem := concrete_itemType hcollection.concrete ht.2.1
    have hbody := fits_of_typedAll body h.2 ht.2.2 hfirst.2 hscoped.2
      (hknown.append (known_singleton hitem))
    exact ⟨List.forall_mem_singleton.mpr (.forEach hcollection ht.2.1 hbody.1), known_nil⟩
  | exit, _, _, _, _, _, _ => ⟨List.forall_mem_singleton.mpr .exit, known_nil⟩

/-- Statements that keep the rules on types fit. -/
theorem fits_of_typedAll : ∀ (ns : List Node) {known : List Entity}, allFormed ns = true →
    TypedAll ns → allFirstOrder ns = true → ScopedAll known ns → Known known →
    (∀ n ∈ ns, n.Fits) ∧ Known (exportsAll ns)
  | [], _, _, _, _, _, _ => ⟨List.forall_mem_nil _, known_nil⟩
  | n :: rest, _, h, ht, hfirst, hscoped, hknown => by
    simp only [allFormed, allFirstOrder, Bool.and_eq_true, Bool.not_eq_true'] at h hfirst
    have hn := fits_of_typed n h.1.2 ht.1 hfirst.1 hscoped.1 hknown
    have hrest := fits_of_typedAll rest h.2 ht.2 hfirst.2 hscoped.2 (hknown.append hn.2)
    rw [spread_of_isList_eq_false h.1.1, List.forall_mem_singleton] at hn
    exact ⟨List.forall_mem_cons.mpr ⟨hn.1, hrest.1⟩, hn.2.append hrest.2⟩

end

end Node

/-- A resolved program without functions is strictly typed. -/
theorem resolve_fits {p : Surface.Program} {t : Node} (h : resolve p = .ok t)
    (hfirst : t.firstOrder = true) : t.Fits := by
  have htyped := resolve_typed h
  rcases resolve_settled h with ⟨nodes, rfl, hformed, hscoped, -⟩
  exact .program (Node.fits_of_typedAll nodes hformed htyped hfirst hscoped Node.known_nil).1

end Squishc
