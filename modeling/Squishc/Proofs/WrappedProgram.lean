import Mathlib.Data.Option.Basic
import Squishc.Proofs.OperandOrder
import Squishc.Proofs.PermissiveBodies

/-!
# A program inside a function

The statements of a program may be put into the body of a function.  There the rules on
types are not enforced, and less is known: an index into a string gives a string outside
functions and something unknown inside.  What is not known may spread, from an initializer
to its variable, from an operand to its operation and from a collection to its items, and
in the end it may reach the collection of a loop, which has to have items everywhere.

A type is vaguer than another if it comes from that by putting `any` in the place of some
of its parts.  Resolving in a function whatever can be resolved outside gives the same
tree with vaguer types, and a vaguer type has items wherever the other has.

Main results:

- Theorem `resultType_vaguer`: an operation that is accepted has a vaguer type when its
  operands have.
- Theorem `expr_follows`: an expression is resolved in a function if it is outside.
- Theorem `stmts_follows`: so are statements, but for functions.
- Theorem `madeAll_vaguer`: the variables that are declared correspond one by one.
- Theorem `wrapped_program_accepted`: a program without functions is accepted as the body
  of a function.
-/

namespace Squishc

/-! ## Vaguer types -/

/-- The first type comes from the second by putting the unknown type in the place of some
of its parts. -/
inductive Ty.Vaguer : Ty → Ty → Prop where
  | same (t : Ty) : Vaguer t t
  | unknown (t : Ty) : Vaguer .any t
  | array {s t : Ty} (h : Vaguer s t) : Vaguer (.array s) (.array t)

namespace Ty

variable {s t : Ty}

theorem Vaguer.eq_any (h : Vaguer s .any) : s = .any := by
  cases h with
  | same | unknown => rfl

/-- What is vaguer than an array is one too, or unknown. -/
theorem Vaguer.of_array (h : Vaguer s (.array t)) :
    s = .any ∨ ∃ element, s = .array element ∧ Vaguer element t := by
  cases h with
  | same => exact .inr ⟨t, rfl, .same t⟩
  | unknown => exact .inl rfl
  | @array element _ h => exact .inr ⟨element, rfl, h⟩

/-- What is vaguer than a type that is no array is the same, or unknown. -/
theorem Vaguer.eq_or_any (h : Vaguer s t) (ht : ∀ element, t ≠ .array element) :
    s = t ∨ s = .any := by
  cases h with
  | same => exact .inl rfl
  | unknown => exact .inr rfl
  | @array _ element _ => exact absurd rfl (ht element)

/-- A vaguer type has items if the other has, and they are of a vaguer type. -/
theorem Vaguer.itemType? {item : Ty} (h : Vaguer s t) (hitem : Resolve.itemType? t = some item) :
    ∃ item', Resolve.itemType? s = some item' ∧ Vaguer item' item := by
  cases h with
  | same => exact ⟨item, hitem, .same item⟩
  | unknown => exact ⟨.any, rfl, .unknown item⟩
  | @array element other h =>
    cases hitem
    exact ⟨element, rfl, h⟩

theorem eq_or_any_of_isAddend (hs : s.isAddend = true) (hany : s.isAny = false)
    (h : s.compatible t = true) : t = s ∨ t = .any := by
  cases s with
  | any => cases hany
  | int | float | string => cases t <;> simp [compatible, same] at h ⊢
  | boolean | void | array _ => cases hs

end Ty

theorem Op.isAddend_of_accepts {op : Op} {left right : Ty} (hop : op.givesTruth = false)
    (h : op.accepts left right = true) : left.isAddend = true := by
  rw [givesTruth, Bool.or_eq_false_iff] at hop
  rw [accepts, hop.1, hop.2, if_neg Bool.false_ne_true, if_neg Bool.false_ne_true] at h
  split at h
  · exact (Bool.and_eq_true_iff.mp h).1
  · rw [Ty.isAddend, (Bool.and_eq_true_iff.mp h).1, Bool.true_or]

/-- An operation that is accepted has a vaguer type when its operands have.  If the left
operand becomes unknown the right one decides, which is of the same type or unknown. -/
theorem Op.resultType_vaguer {op : Op} {left right left' right' : Ty}
    (h : op.accepts left right = true) (hleft : left'.Vaguer left) (hright : right'.Vaguer right) :
    (op.resultType left' right').Vaguer (op.resultType left right) := by
  cases hop : op.givesTruth with
  | true => rw [resultType, resultType, hop]; exact .same _
  | false =>
    rw [resultType, resultType, hop, if_neg Bool.false_ne_true, if_neg Bool.false_ne_true]
    cases hany : left.isAny with
    | true =>
      obtain rfl := Ty.eq_any_of_isAny hany
      rw [hleft.eq_any]
      exact hright
    | false =>
      cases hany' : left'.isAny with
      | true =>
        rcases Ty.eq_or_any_of_isAddend (isAddend_of_accepts hop h) hany
          (compatible_of_accepts hop h) with rfl | rfl
        · exact hright
        · rw [hright.eq_any]
          exact .unknown left
      | false => exact hleft

/-! ## Trees with vaguer types -/

/-- One variable stands for another in a function: its number is the next one, as the
function takes a number too, and its type is vaguer. -/
structure Variable.Vaguer (w v : Variable) : Prop where
  id : w.id = v.id + 1
  name : w.name = v.name
  type : w.type.Vaguer v.type

/-- The first tree is the second with vaguer types, of variables as well as of operations.
Neither has functions. -/
inductive Node.Vaguer : Node → Node → Prop where
  | bool (b : Bool) : Vaguer (.bool b) (.bool b)
  | number (a : Num) : Vaguer (.number a) (.number a)
  | string (chars : String) : Vaguer (.string chars .string) (.string chars .string)
  | var {w v : Variable} (h : w.Vaguer v) : Vaguer (.var w) (.var v)
  | array {elements elements' : List Node} {type type' : Ty}
      (h : List.Forall₂ Vaguer elements' elements) (htype : type'.Vaguer type) :
      Vaguer (.array elements' type') (.array elements type)
  | index {a a' i i' : Node} {type type' : Ty} (ha : Vaguer a' a) (hi : Vaguer i' i)
      (htype : type'.Vaguer type) : Vaguer (.index a' i' type') (.index a i type)
  | unary {op : Op} {operand operand' : Node} {type type' : Ty} (h : Vaguer operand' operand)
      (htype : type'.Vaguer type) : Vaguer (.unary op operand' type') (.unary op operand type)
  | binary {op : Op} {left left' right right' : Node} {type type' : Ty}
      (hleft : Vaguer left' left) (hright : Vaguer right' right) (htype : type'.Vaguer type) :
      Vaguer (.binary op left' right' type') (.binary op left right type)
  | conditional {consequent consequent' test test' alternate alternate' : Node} {type type' : Ty}
      (hconsequent : Vaguer consequent' consequent) (htest : Vaguer test' test)
      (halternate : Vaguer alternate' alternate) (htype : type'.Vaguer type) :
      Vaguer (.conditional consequent' test' alternate' type')
        (.conditional consequent test alternate type)
  | print {argument argument' : Node} (h : Vaguer argument' argument) :
      Vaguer (.print argument') (.print argument)
  | declare {w v : Variable} {initializer initializer' : Node} (hv : w.Vaguer v)
      (h : Vaguer initializer' initializer) :
      Vaguer (.declare w initializer') (.declare v initializer)
  | assign {w v : Variable} {source source' : Node} (hv : w.Vaguer v) (h : Vaguer source' source) :
      Vaguer (.assign w source') (.assign v source)
  | shortIf {test test' : Node} {body body' : List Node} (htest : Vaguer test' test)
      (hbody : List.Forall₂ Vaguer body' body) : Vaguer (.shortIf test' body') (.shortIf test body)
  | ifElse {test test' alternate alternate' : Node} {body body' : List Node}
      (htest : Vaguer test' test) (hbody : List.Forall₂ Vaguer body' body)
      (halternate : Vaguer alternate' alternate) :
      Vaguer (.ifElse test' body' alternate') (.ifElse test body alternate)
  | list {items items' : List Node} (h : List.Forall₂ Vaguer items' items) :
      Vaguer (.list items') (.list items)
  | whileLoop {test test' : Node} {body body' : List Node} (htest : Vaguer test' test)
      (hbody : List.Forall₂ Vaguer body' body) :
      Vaguer (.whileLoop test' body') (.whileLoop test body)
  | forLoop {declaration declaration' test test' increment increment' : Node}
      {body body' : List Node} (hdeclaration : Vaguer declaration' declaration)
      (htest : Vaguer test' test) (hincrement : Vaguer increment' increment)
      (hbody : List.Forall₂ Vaguer body' body) :
      Vaguer (.forLoop declaration' test' increment' body' false)
        (.forLoop declaration test increment body false)
  | forEach {w v : Variable} {collection collection' : Node} {body body' : List Node}
      (hv : w.Vaguer v) (hcollection : Vaguer collection' collection)
      (hbody : List.Forall₂ Vaguer body' body) :
      Vaguer (.forEach w collection' body') (.forEach v collection body)
  | exit : Vaguer .exit .exit

theorem Node.Vaguer.type {n n' : Node} (h : n'.Vaguer n) : n'.type.Vaguer n.type := by
  cases h with
  | var hv => exact hv.type
  | array _ htype | index _ _ htype | unary _ htype | binary _ _ htype
  | conditional _ _ _ htype => exact htype
  | _ => exact .same _

/-- One entity stands for another in a function.  Both are variables. -/
inductive Entity.Vaguer : Entity → Entity → Prop where
  | var {w v : Variable} (h : w.Vaguer v) : Vaguer (.var w) (.var v)

namespace Node

mutual

/-- The variables that a tree with vaguer types declares stand for those of the other, one
by one. -/
theorem made_vaguer : ∀ (n : Node) {n' : Node}, n'.Vaguer n →
    List.Forall₂ Entity.Vaguer n'.made n.made
  | declare _ _, _, .declare hv _ => by
    rw [made_declare, made_declare]
    exact .cons (.var hv) .nil
  | shortIf _ body, _, .shortIf _ hbody => by
    rw [made_shortIf, made_shortIf]
    exact madeAll_vaguer body hbody
  | ifElse _ body alternate, _, .ifElse _ hbody halternate => by
    rw [made_ifElse, made_ifElse]
    exact List.rel_append (madeAll_vaguer body hbody) (made_vaguer alternate halternate)
  | list items, _, .list hitems => by
    rw [made_list, made_list]
    exact madeAll_vaguer items hitems
  | whileLoop _ body, _, .whileLoop _ hbody => by
    rw [made_whileLoop, made_whileLoop]
    exact madeAll_vaguer body hbody
  | forLoop declaration _ increment body _, _, .forLoop hdeclaration _ hincrement hbody => by
    rw [made_forLoop, made_forLoop]
    exact List.rel_append (made_vaguer declaration hdeclaration)
      (List.rel_append (made_vaguer increment hincrement) (madeAll_vaguer body hbody))
  | forEach _ _ body, _, .forEach hv _ hbody => by
    rw [made_forEach, made_forEach]
    exact .cons (.var hv) (madeAll_vaguer body hbody)
  | assign _ _, _, .assign _ _ => by
    rw [made_assign, made_assign]
    exact .nil
  | print _, _, .print _ => by
    rw [made_print, made_print]
    exact .nil
  | bool _, _, .bool _ | number _, _, .number _ | string _ _, _, .string _ | var _, _, .var _
  | array _ _, _, .array _ _ | index _ _ _, _, .index _ _ _ | unary _ _ _, _, .unary _ _
  | binary _ _ _ _, _, .binary _ _ _ | conditional _ _ _ _, _, .conditional _ _ _ _
  | exit, _, .exit => .nil

theorem madeAll_vaguer : ∀ (ns : List Node) {ns' : List Node},
    List.Forall₂ Node.Vaguer ns' ns → List.Forall₂ Entity.Vaguer (madeAll ns') (madeAll ns)
  | [], _, .nil => .nil
  | n :: rest, _, .cons hn hrest => by
    rw [madeAll_cons, madeAll_cons]
    exact List.rel_append (made_vaguer n hn) (madeAll_vaguer rest hrest)

end

end Node

/-! ## Scopes -/

/-- A scope in a function has the declarations of a scope outside. -/
structure Scope.Vaguer (s' s : Scope) : Prop where
  locals : List.Forall₂ (fun x' x => x'.1 = x.1 ∧ Entity.Vaguer x'.2 x.2) s'.locals s.locals
  inLoop : s'.inLoop = s.inLoop
  inside : s'.strict = false
  outside : s.strict = true

/-- The innermost scopes of a chain are in a function and have the declarations of a chain
outside. -/
structure Chain.Vaguer (chain' chain : Chain) : Prop where
  ne_nil : chain ≠ []
  scopes : ∃ inner outer, chain' = inner ++ outer ∧ List.Forall₂ Scope.Vaguer inner chain

namespace Scope.Vaguer

variable {s s' : Scope}

theorem find? (h : s'.Vaguer s) (name : String) :
    Option.Rel Entity.Vaguer (s'.find? name) (s.find? name) := by
  rcases s with ⟨locals, inLoop, owner?⟩
  rcases s' with ⟨locals', inLoop', owner?'⟩
  have hlocals := h.locals
  simp only [Scope.find?] at hlocals ⊢
  induction hlocals with
  | nil => exact .none
  | cons hx hrest ih =>
    rw [List.find?_cons, List.find?_cons, hx.1]
    split
    · exact .some hx.2
    · exact ih ⟨hrest, h.inLoop, h.inside, h.outside⟩

/-- A declaration that can be made outside can be made in the function. -/
theorem declare? (h : s'.Vaguer s) {name : String} {e e' : Entity} (he : e'.Vaguer e) {t : Scope}
    (ht : s.declare? name e = some t) : ∃ t', s'.declare? name e' = some t' ∧ t'.Vaguer t := by
  have hfind := h.find? name
  unfold Scope.declare? at ht ⊢
  split at ht
  · cases ht
  · next hfree =>
    cases ht
    have hfree' : ¬ (s'.find? name).isSome = true := by
      generalize s'.find? name = found', s.find? name = found at hfind hfree
      cases hfind with
      | some => exact absurd rfl hfree
      | none => exact Bool.false_ne_true
    rw [if_neg hfree']
    exact ⟨_, rfl, List.rel_append h.locals (.cons ⟨rfl, he⟩ .nil), h.inLoop, h.inside, h.outside⟩

theorem child (h : s'.Vaguer s) (inLoop : Bool) :
    (s'.child inLoop none).Vaguer (s.child inLoop none) :=
  ⟨.nil, rfl, h.inside, h.outside⟩

end Scope.Vaguer

namespace Chain.Vaguer

variable {chain chain' : Chain}

/-- The innermost scope is in the function. -/
theorem exists_cons (h : chain'.Vaguer chain) :
    ∃ s' rest' s rest, chain' = s' :: rest' ∧ chain = s :: rest ∧ s'.Vaguer s := by
  rcases h.scopes with ⟨inner, outer, rfl, hscopes⟩
  cases hscopes with
  | nil => exact absurd rfl h.ne_nil
  | cons hs _ => exact ⟨_, _, _, _, rfl, rfl, hs⟩

theorem isStrict (h : chain'.Vaguer chain) :
    Resolve.isStrict chain = true ∧ Resolve.isStrict chain' = false := by
  rcases h.exists_cons with ⟨s', rest', s, rest, rfl, rfl, hs⟩
  exact ⟨hs.outside, hs.inside⟩

/-- A name that stands for something outside stands for a variable, and for one of a vaguer
type in the function. -/
theorem resolve? (h : chain'.Vaguer chain) {name : String} {e : Entity}
    (he : chain.resolve? name = some e) : ∃ e', chain'.resolve? name = some e' ∧ e'.Vaguer e := by
  rcases h.scopes with ⟨inner, outer, rfl, hscopes⟩
  clear h
  unfold Chain.resolve? at he ⊢
  induction hscopes with
  | nil => cases he
  | @cons s' s _ _ hs _ ih =>
    have hfind := hs.find? name
    rw [List.findSome?_cons] at he
    rw [List.cons_append, List.findSome?_cons]
    generalize s'.find? name = found', s.find? name = found at hfind he
    cases hfind with
    | some hrel =>
      cases he
      exact ⟨_, rfl, hrel⟩
    | none => exact ih he

theorem push (h : chain'.Vaguer chain) {s s' : Scope} (hs : s'.Vaguer s) :
    Chain.Vaguer (s' :: chain') (s :: chain) := by
  rcases h.scopes with ⟨inner, outer, rfl, hscopes⟩
  exact ⟨List.cons_ne_nil _ _, s' :: inner, outer, rfl, .cons hs hscopes⟩

end Chain.Vaguer

/-! ## Programs without functions -/

namespace Surface

mutual

/-- Whether a statement declares no function, at any depth. -/
def Stmt.functionFree : Stmt → Bool
  | .function _ _ _ _ => false
  | .branch _ _ body rest => functionFreeAll body && rest.functionFree
  | .whileLoop _ _ body | .forLoop _ _ _ _ body | .forEach _ _ _ body => functionFreeAll body
  | .print _ _ | .declare _ | .assign _ | .exit _ | .ret _ _ | .call _ _ _ | .stray _ => true

/-- Whether some statements declare no function. -/
def functionFreeAll : List Stmt → Bool
  | [] => true
  | s :: rest => s.functionFree && functionFreeAll rest

/-- Whether what follows the body of a branch declares no function. -/
def Else.functionFree : Else → Bool
  | .body body => functionFreeAll body
  | .branch _ _ body rest => functionFreeAll body && rest.functionFree
  | .absent | .stray _ => true

end

/-- A program whose only statement is a function with the given body. -/
def Program.wrapped (p : Program) (pos : Pos) (name : String) : Program :=
  ⟨[.function pos name [] p.statements]⟩

end Surface

/-! ## Attempts that follow others -/

namespace Resolve

/-- Whenever one attempt succeeds another one does, with a result that goes with it. -/
def Follows {α β : Type} (r : Resolved α) (r' : Resolved β) (goes : β → α → Prop) : Prop :=
  ∀ a, r = .ok a → ∃ b, r' = .ok b ∧ goes b a

namespace Follows

variable {α β γ δ : Type} {goes : β → α → Prop} {goes' : δ → γ → Prop} {r : Resolved α}
  {r' : Resolved β}

theorem ok {a : α} {b : β} (h : goes b a) : Follows (.ok a) (.ok b) goes := by
  rintro _ ⟨⟩
  exact ⟨b, rfl, h⟩

theorem error {f : ResolveFault} : Follows (.error f) r' goes := nofun

theorem bind {next : α → Resolved γ} {next' : β → Resolved δ} (h : Follows r r' goes)
    (hnext : ∀ a b, goes b a → Follows (next a) (next' b) goes') :
    Follows (r >>= next) (r' >>= next') goes' := by
  cases r with
  | error f => exact error
  | ok a =>
    rcases h a rfl with ⟨b, rfl, hab⟩
    exact hnext a b hab

/-- Only the first attempt makes a check. -/
theorem check {check : Resolved Unit} {next : Resolved α} (h : Follows next r' goes) :
    Follows (check >>= fun _ => next) r' goes := by
  cases check with
  | ok _ => exact h
  | error f => exact error

end Follows

/-! ## Names -/

section

variable {chain chain' : Chain}

theorem entity_follows (h : chain'.Vaguer chain) (name : String) (pos : Pos) :
    Follows (entity chain name pos) (entity chain' name pos) Entity.Vaguer := by
  cases he : chain.resolve? name with
  | none =>
    rw [entity, he]
    exact Follows.error
  | some e =>
    rcases h.resolve? he with ⟨e', he', hrel⟩
    rw [entity, entity, he, he']
    exact Follows.ok hrel

theorem variableUse_follows (h : chain'.Vaguer chain) (name : String) (pos : Pos) :
    Follows (variableUse chain name pos) (variableUse chain' name pos) Variable.Vaguer := by
  refine (entity_follows h name pos).bind ?_
  rintro _ _ ⟨hv⟩
  exact Follows.ok hv

theorem assignTarget_follows (h : chain'.Vaguer chain) (name : String) (pos : Pos) :
    Follows (assignTarget chain name pos) (assignTarget chain' name pos) Variable.Vaguer := by
  refine (entity_follows h name pos).bind ?_
  rintro _ _ ⟨hv⟩
  exact Follows.ok hv

/-- No name stands for a function outside. -/
theorem calledFunction_follows (h : chain'.Vaguer chain) (name : String) (pos : Pos) :
    Follows (calledFunction chain name pos) (calledFunction chain' name pos)
      (fun _ _ => False) := by
  refine (entity_follows h name pos).bind ?_
  rintro _ _ ⟨hv⟩
  exact Follows.error

/-! ## Operations -/

theorem unary_follows (op : Op) {operand operand' : Node} (pos : Pos)
    (h : operand'.Vaguer operand) :
    Follows (unary true op operand pos) (unary false op operand' pos) Node.Vaguer := by
  unfold unary
  split
  · exact Follows.check (Follows.ok (.unary h (.same _)))
  · exact Follows.check (Follows.ok (.unary h h.type))

/-- An operation has the type that its operands give it. -/
theorem binary_result (strict : Bool) (op : Op) (left right : Node) (leftPos rightPos : Pos) :
    Ends (binary strict op left right leftPos rightPos)
      (fun n => n = .binary op left right (op.resultType left.type right.type)) AnyFault := by
  unfold binary Op.resultType Op.givesTruth
  split
  · next hlogic =>
    rw [hlogic]
    refine (checkBoolean_ends ignores_anyFault _ _ _).bind fun _ _ => ?_
    exact (checkBoolean_ends ignores_anyFault _ _ _).bind fun _ _ => rfl
  · next hlogic =>
    rw [Bool.eq_false_iff.mpr hlogic]
    split
    · next hcompare =>
      rw [hcompare]
      cases strict with
      | true => exact (checkOperands_ends ignores_anyFault _ _ _).bind fun _ _ => rfl
      | false => rfl
    · next hcompare =>
      rw [Bool.eq_false_iff.mpr hcompare]
      cases strict with
      | true => exact (checkArithmetic_ends ignores_anyFault _ _ _ _ _).bind fun _ _ => rfl
      | false => rfl

theorem binary_follows (op : Op) {left left' right right' : Node} (leftPos rightPos : Pos)
    (hleft : left'.Vaguer left) (hright : right'.Vaguer right) :
    Follows (binary true op left right leftPos rightPos)
      (binary false op left' right' leftPos rightPos) Node.Vaguer := by
  intro n hn
  have haccepts := (binary_accepted_iff op left right leftPos rightPos).mp ⟨n, hn⟩
  obtain rfl := (binary_result true op left right leftPos rightPos).ok hn
  rcases binary_loose op left' right' leftPos rightPos with ⟨n', hn', -⟩
  obtain rfl := (binary_result false op left' right' leftPos rightPos).ok hn'
  exact ⟨_, hn', .binary hleft hright (Op.resultType_vaguer haccepts hleft.type hright.type)⟩

theorem array_follows {elements elements' : List Node} (positions : List Pos)
    (h : List.Forall₂ Node.Vaguer elements' elements) :
    Follows (array true elements positions) (array false elements' positions) Node.Vaguer := by
  cases h with
  | nil => exact Follows.ok (.array .nil (.same _))
  | cons hfirst hrest =>
    exact Follows.check (Follows.ok (.array (.cons hfirst hrest) (.array hfirst.type)))

/-- An index into a string gives something unknown in a function. -/
theorem index_follows {a a' i i' : Node} (arrayPos indexPos : Pos) (ha : a'.Vaguer a)
    (hi : i'.Vaguer i) :
    Follows (index true a i arrayPos indexPos) (index false a' i' arrayPos indexPos)
      Node.Vaguer := by
  have htype := ha.type
  refine Follows.check ?_
  split
  · next element hstrict =>
    rw [hstrict] at htype
    rcases htype.of_array with hloose | ⟨element', hloose, helement⟩
    · rw [index, hloose]
      exact Follows.ok (.index ha hi (.unknown element))
    · rw [index, hloose]
      exact Follows.ok (.index ha hi helement)
  · next hstrict =>
    rw [hstrict] at htype
    rcases htype.eq_or_any nofun with hloose | hloose
    · rw [index, hloose]
      exact Follows.ok (.index ha hi (.unknown .string))
    · rw [index, hloose]
      exact Follows.ok (.index ha hi (.unknown .string))
  · next hstrict =>
    rw [hstrict] at htype
    rw [index, htype.eq_any]
    exact Follows.ok (.index ha hi (.same .any))
  · exact Follows.error

mutual

/-- An expression is resolved in a function if it is outside, to the same tree with vaguer
types. -/
theorem expr_follows (h : chain'.Vaguer chain) : ∀ e : Surface.Expr,
    Follows (expr chain e) (expr chain' e) Node.Vaguer
  | .int _ value => Follows.ok (.number (.int value))
  | .float _ value => Follows.ok (.number (.float value))
  | .bool _ value => Follows.ok (.bool value)
  | .string _ value => Follows.ok (.string value)
  | .var pos name => (variableUse_follows h name pos).bind fun _ _ hv => Follows.ok (.var hv)
  | .array _ elements => by
    refine (exprs_follows h elements).bind fun nodes nodes' hnodes => ?_
    rw [h.isStrict.1, h.isStrict.2]
    exact array_follows _ hnodes
  | .index _ a i => by
    refine (expr_follows h a).bind fun arrayNode arrayNode' harray => ?_
    refine (expr_follows h i).bind fun indexNode indexNode' hindex => ?_
    rw [h.isStrict.1, h.isStrict.2]
    exact index_follows _ _ harray hindex
  | .call pos callee args =>
    (calledFunction_follows h callee pos).bind fun _ _ hnone => hnone.elim
  | .unary pos op operand => by
    refine (expr_follows h operand).bind fun n n' hn => ?_
    rw [h.isStrict.1, h.isStrict.2]
    exact unary_follows op pos hn
  | .binary _ op left right => by
    refine (expr_follows h left).bind fun l l' hl => ?_
    refine (expr_follows h right).bind fun r r' hr => ?_
    rw [h.isStrict.1, h.isStrict.2]
    exact binary_follows op _ _ hl hr
  | .conditional _ consequent test alternate => by
    refine (expr_follows h consequent).bind fun c c' hc => ?_
    refine (expr_follows h test).bind fun t t' ht => ?_
    rw [h.isStrict.1, h.isStrict.2]
    refine Follows.check ?_
    exact (expr_follows h alternate).bind fun a a' ha => Follows.ok (.conditional hc ht ha hc.type)
  | .stray _ => Follows.error

theorem exprs_follows (h : chain'.Vaguer chain) : ∀ es : List Surface.Expr,
    Follows (exprs chain es) (exprs chain' es) (List.Forall₂ Node.Vaguer)
  | [] => Follows.ok .nil
  | e :: rest => by
    refine (expr_follows h e).bind fun n n' hn => ?_
    exact (exprs_follows h rest).bind fun ns ns' hns => Follows.ok (.cons hn hns)

end

end

/-! ## Statements -/

/-- The surroundings of a statement in a function and outside. -/
structure Env.Vaguer (env' env : Env) : Prop where
  chain : env'.chain.Vaguer env.chain
  fresh : env'.fresh = env.fresh + 1

/-- What becomes of a statement in a function and outside. -/
structure Step.Vaguer (step' step : Node × Env) : Prop where
  node : step'.1.Vaguer step.1
  env : step'.2.Vaguer step.2

section

variable {env env' : Env}

theorem Env.Vaguer.inside (h : env'.Vaguer env) (inLoop : Bool) :
    (env'.inside inLoop none).Vaguer (env.inside inLoop none) := by
  refine ⟨h.chain.push ?_, h.fresh⟩
  rcases h.chain.exists_cons with ⟨s', rest', s, rest, hchain', hchain, hs⟩
  rw [hchain', hchain]
  exact hs.child inLoop

theorem Env.Vaguer.leave {inner inner' : Env} (h : env'.Vaguer env) (hinner : inner'.Vaguer inner) :
    (env'.leave inner').Vaguer (env.leave inner) := ⟨h.chain, hinner.fresh⟩

theorem Env.Vaguer.inLoop (h : env'.Vaguer env) : env'.inLoop = env.inLoop := by
  rcases h.chain.exists_cons with ⟨s', rest', s, rest, hchain', hchain, hs⟩
  rw [Env.inLoop, Env.inLoop, hchain', hchain]
  exact hs.inLoop

/-- Outside a function nothing is returned. -/
theorem Env.Vaguer.not_inFunction (h : env'.Vaguer env) : env.inFunction = false := by
  rcases h.chain.exists_cons with ⟨s', rest', s, rest, -, hchain, hs⟩
  rw [Env.inFunction, hchain]
  simpa [Scope.strict] using hs.outside

theorem declareVariable_follows (h : env'.Vaguer env) (name : String) {type type' : Ty}
    (htype : type'.Vaguer type) (pos : Pos) :
    Follows (env.declareVariable name type pos) (env'.declareVariable name type' pos)
      (fun r' r => r'.1.Vaguer r.1 ∧ r'.2.Vaguer r.2) := by
  have hv : Variable.Vaguer ⟨env'.fresh, name, type'⟩ ⟨env.fresh, name, type⟩ :=
    ⟨h.fresh, rfl, htype⟩
  rcases h.chain.scopes with ⟨inner, outer, hchain', hscopes⟩
  cases hchain : env.chain with
  | nil => exact absurd hchain h.chain.ne_nil
  | cons s rest =>
    rw [hchain] at hscopes
    cases hscopes with
    | @cons s' _ inner _ hs hrest =>
      simp only [Env.declareVariable, Env.declare, hchain, hchain', List.cons_append]
      cases ht : s.declare? name (.var ⟨env.fresh, name, type⟩) with
      | none => exact Follows.error
      | some t =>
        rcases hs.declare? (.var hv) ht with ⟨t', ht', htt⟩
        rw [ht']
        exact Follows.ok ⟨hv, ⟨List.cons_ne_nil _ _, t' :: inner, outer, rfl, .cons htt hrest⟩,
          congrArg (· + 1) h.fresh⟩

theorem declaration_follows (h : env'.Vaguer env) (b : Surface.Binding) :
    Follows (declaration env b) (declaration env' b) Step.Vaguer := by
  refine (expr_follows h.chain b.value).bind fun n n' hn => ?_
  refine (declareVariable_follows h b.name hn.type b.pos).bind ?_
  rintro ⟨v, next⟩ ⟨v', next'⟩ ⟨hv, hnext⟩
  exact Follows.ok ⟨.declare hv hn, hnext⟩

theorem assignment_follows (h : env'.Vaguer env) (b : Surface.Binding) :
    Follows (assignment env b) (assignment env' b) Node.Vaguer := by
  refine (assignTarget_follows h.chain b.name b.pos).bind fun v v' hv => ?_
  refine (expr_follows h.chain b.value).bind fun n n' hn => ?_
  rw [h.chain.isStrict.2]
  exact Follows.check (Follows.ok (.assign hv hn))

theorem test_follows (h : env'.Vaguer env) (e : Surface.Expr) :
    Follows (test env e) (test env' e) Node.Vaguer := by
  refine (expr_follows h.chain e).bind fun n n' hn => ?_
  rw [h.chain.isStrict.2]
  exact Follows.check (Follows.ok hn)

end

mutual

/-- A statement is resolved in a function if it is outside. -/
theorem stmt_follows {env env' : Env} (h : env'.Vaguer env) :
    ∀ s : Surface.Stmt, s.functionFree = true → Follows (stmt env s) (stmt env' s) Step.Vaguer
  | .print _ value, _ =>
    (expr_follows h.chain value).bind fun _ _ hn => Follows.ok ⟨.print hn, h⟩
  | .declare b, _ => declaration_follows h b
  | .assign b, _ => (assignment_follows h b).bind fun _ _ hn => Follows.ok ⟨hn, h⟩
  | .branch _ e body rest, hfree => by
    simp only [Surface.Stmt.functionFree, Bool.and_eq_true] at hfree
    refine (test_follows h e).bind fun t t' ht => ?_
    refine (stmts_follows h body hfree.1).bind ?_
    rintro ⟨nodes, next⟩ ⟨nodes', next'⟩ ⟨hnodes, hnext⟩
    refine (alternative_follows hnext rest hfree.2).bind ?_
    rintro ⟨alternate?, last⟩ ⟨alternate?', last'⟩ ⟨halternate, hlast⟩
    cases halternate with
    | none => exact Follows.ok ⟨.shortIf ht hnodes, hlast⟩
    | some halternate => exact Follows.ok ⟨.ifElse ht hnodes halternate, hlast⟩
  | .whileLoop _ e body, hfree => by
    refine (test_follows h e).bind fun t t' ht => ?_
    refine (stmts_follows (h.inside true) body hfree).bind ?_
    rintro ⟨nodes, inner⟩ ⟨nodes', inner'⟩ ⟨hnodes, hinner⟩
    exact Follows.ok ⟨.whileLoop ht hnodes, h.leave hinner⟩
  | .forLoop _ init e update body, hfree => by
    refine (declaration_follows (h.inside true) init).bind ?_
    rintro ⟨d, header⟩ ⟨d', header'⟩ ⟨hd, hheader⟩
    refine (test_follows hheader e).bind fun t t' ht => ?_
    refine (assignment_follows hheader update).bind fun increment increment' hincrement => ?_
    refine (stmts_follows hheader body hfree).bind ?_
    rintro ⟨nodes, inner⟩ ⟨nodes', inner'⟩ ⟨hnodes, hinner⟩
    exact Follows.ok ⟨.forLoop hd ht hincrement hnodes, h.leave hinner⟩
  | .forEach pos e name body, hfree => by
    refine (expr_follows h.chain e).bind fun collection collection' hcollection => ?_
    cases hitem : itemType? collection.type with
    | none => exact Follows.error
    | some item =>
      -- The collection has items outside, so it has them in the function.
      rcases hcollection.type.itemType? hitem with ⟨item', hitem', htype⟩
      rw [hitem']
      refine (declareVariable_follows (h.inside true) name htype pos).bind ?_
      rintro ⟨v, header⟩ ⟨v', header'⟩ ⟨hv, hheader⟩
      refine (stmts_follows hheader body hfree).bind ?_
      rintro ⟨nodes, inner⟩ ⟨nodes', inner'⟩ ⟨hnodes, hinner⟩
      exact Follows.ok ⟨.forEach hv hcollection hnodes, h.leave hinner⟩
  | .exit pos, _ => by
    rw [stmt, stmt, h.inLoop]
    cases env.inLoop with
    | true => exact Follows.ok ⟨.exit, h⟩
    | false => exact Follows.error
  | .ret pos value, _ => by
    simp only [stmt, h.not_inFunction]
    exact Follows.error
  | .call pos callee args, _ =>
    (calledFunction_follows h.chain callee pos).bind fun _ _ hnone => hnone.elim
  | .stray _, _ => Follows.error

/-- Statements are resolved in a function if they are outside. -/
theorem stmts_follows {env env' : Env} (h : env'.Vaguer env) : ∀ ss : List Surface.Stmt,
    Surface.functionFreeAll ss = true → Follows (stmts env ss) (stmts env' ss)
      (fun r' r => List.Forall₂ Node.Vaguer r'.1 r.1 ∧ r'.2.Vaguer r.2)
  | [], _ => Follows.ok ⟨.nil, h⟩
  | s :: rest, hfree => by
    simp only [Surface.functionFreeAll, Bool.and_eq_true] at hfree
    refine (stmt_follows h s hfree.1).bind ?_
    rintro ⟨n, next⟩ ⟨n', next'⟩ ⟨hn, hnext⟩
    refine (stmts_follows hnext rest hfree.2).bind ?_
    rintro ⟨ns, last⟩ ⟨ns', last'⟩ ⟨hns, hlast⟩
    exact Follows.ok ⟨.cons hn hns, hlast⟩

theorem alternative_follows {env env' : Env} (h : env'.Vaguer env) : ∀ rest : Surface.Else,
    rest.functionFree = true → Follows (alternative env rest) (alternative env' rest)
      (fun r' r => Option.Rel Node.Vaguer r'.1 r.1 ∧ r'.2.Vaguer r.2)
  | .absent, _ => Follows.ok ⟨.none, h⟩
  | .body body, hfree => by
    refine (stmts_follows h body hfree).bind ?_
    rintro ⟨nodes, next⟩ ⟨nodes', next'⟩ ⟨hnodes, hnext⟩
    exact Follows.ok ⟨.some (.list hnodes), hnext⟩
  | .branch _ e body rest, hfree => by
    simp only [Surface.Else.functionFree, Bool.and_eq_true] at hfree
    refine (test_follows h e).bind fun t t' ht => ?_
    refine (stmts_follows h body hfree.1).bind ?_
    rintro ⟨nodes, next⟩ ⟨nodes', next'⟩ ⟨hnodes, hnext⟩
    refine (alternative_follows hnext rest hfree.2).bind ?_
    rintro ⟨alternate?, last⟩ ⟨alternate?', last'⟩ ⟨halternate, hlast⟩
    cases halternate with
    | none => exact Follows.ok ⟨.some (.shortIf ht hnodes), hlast⟩
    | some halternate => exact Follows.ok ⟨.some (.ifElse ht hnodes halternate), hlast⟩
  | .stray _, _ => Follows.error

end

/-- The surroundings of the body of a function that is all of a program. -/
def bodyEnv (f : Function) : Env :=
  (Env.mk [⟨[(f.name, .function f)], false, none⟩] (f.id + 1)).inside false (some f)

theorem bodyEnv_vaguer (name : String) : (bodyEnv ⟨0, name, []⟩).Vaguer .initial :=
  ⟨⟨List.cons_ne_nil _ _, [_], _, rfl, .cons ⟨.nil, rfl, rfl, rfl⟩ .nil⟩, rfl⟩

end Resolve

open Resolve

theorem resolve_wrapped (p : Surface.Program) (pos : Pos) (name : String) :
    resolve (p.wrapped pos name) = do
      let (body, _) ← stmts (bodyEnv ⟨0, name, []⟩) p.statements
      return .program [.define ⟨0, name, []⟩ body] := by
  have hbody : stmt .initial (.function pos name [] p.statements) =
      stmts (bodyEnv ⟨0, name, []⟩) p.statements >>= fun r =>
        .ok (.define ⟨0, name, []⟩ r.1,
          (Env.mk [⟨[(name, .function ⟨0, name, []⟩)], false, none⟩] 1).leave r.2) := by
    rw [stmt]
    rfl
  rw [resolve, Surface.Program.wrapped, stmts, hbody]
  cases stmts (bodyEnv ⟨0, name, []⟩) p.statements with
  | error f => rfl
  | ok r => rfl

/-- A program without functions that is accepted is accepted as the body of a function, of
any name.  Its tree is the same in the function, with vaguer types.  In particular its
variables are those of the program, with the next numbers, and the type of each comes from
its type in the program by putting the unknown type in the place of some of its parts. -/
theorem wrapped_program_accepted {p : Surface.Program} {t : Node}
    (hfree : Surface.functionFreeAll p.statements = true) (h : resolve p = .ok t) (pos : Pos)
    (name : String) :
    ∃ statements body, t = .program statements ∧
      resolve (p.wrapped pos name) = .ok (.program [.define ⟨0, name, []⟩ body]) ∧
      List.Forall₂ Node.Vaguer body statements ∧
      List.Forall₂ Entity.Vaguer (Node.madeAll body) (Node.madeAll statements) := by
  have hfollows : Follows (resolve p) (resolve (p.wrapped pos name)) fun t' t =>
      ∃ statements body, t = .program statements ∧
        t' = .program [.define ⟨0, name, []⟩ body] ∧ List.Forall₂ Node.Vaguer body statements := by
    rw [resolve_wrapped]
    refine (stmts_follows (bodyEnv_vaguer name) p.statements hfree).bind ?_
    rintro ⟨nodes, _⟩ ⟨nodes', _⟩ ⟨hnodes, -⟩
    exact Follows.ok ⟨nodes, nodes', rfl, rfl, hnodes⟩
  rcases hfollows t h with ⟨_, ht', statements, body, rfl, rfl, hbody⟩
  exact ⟨statements, body, rfl, ht', hbody, Node.madeAll_vaguer statements hbody⟩

/-- A string, an array of its first character and another string, and a loop over that
array. -/
def indexedString : Surface.Program :=
  ⟨[.declare ⟨⟨1, 1⟩, "s", .string ⟨1, 12⟩ "ab"⟩,
    .declare ⟨⟨2, 1⟩, "a", .array ⟨2, 12⟩
      [.index ⟨2, 13⟩ (.var ⟨2, 13⟩ "s") (.int ⟨2, 15⟩ 0), .string ⟨2, 19⟩ "x"]⟩,
    .forEach ⟨3, 1⟩ (.var ⟨3, 1⟩ "a") "c"
      [.print ⟨3, 11⟩ (.binary ⟨3, 17⟩ .add (.var ⟨3, 17⟩ "c") (.string ⟨3, 21⟩ "!"))]]⟩

/-- Outside a function the items of that array are strings.  Inside nothing is known of
them, and the loop is accepted all the same. -/
theorem indexedString_wrapped :
    Surface.functionFreeAll indexedString.statements = true ∧
    ∃ statements body, resolve indexedString = .ok (.program statements) ∧
      resolve (indexedString.wrapped ⟨1, 1⟩ "w") = .ok (.program [.define ⟨0, "w", []⟩ body]) ∧
      List.Forall₂ Node.Vaguer body statements ∧
      Node.madeAll statements =
        [.var ⟨0, "s", .string⟩, .var ⟨1, "a", .array .string⟩, .var ⟨2, "c", .string⟩] ∧
      Node.madeAll body = [.var ⟨1, "s", .string⟩, .var ⟨2, "a", .array .any⟩, .var ⟨3, "c", .any⟩] := by
  have hresolve : ∃ t, resolve indexedString = .ok t := ⟨_, rfl⟩
  rcases hresolve with ⟨t, ht⟩
  rcases wrapped_program_accepted rfl ht ⟨1, 1⟩ "w" with ⟨statements, body, rfl, hwrapped, hbody, -⟩
  refine ⟨rfl, statements, body, ht, hwrapped, hbody, ?_, ?_⟩
  · cases ht
    rfl
  · cases hwrapped
    rfl

end Squishc
