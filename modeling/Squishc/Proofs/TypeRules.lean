import Squishc.Proofs.ResolvedTree

/-!
# Rules on types

What the rules on types ask of a tree: the type of an operation goes back to the
types of its operands, operands go together, tests are boolean, what is assigned
goes with its variable, and what a loop runs over has items of the type of its
iterator.  Wherever something is asked of a type, the unknown type will do.

The rules hold outside functions, so the body of a function may be anything.

Main results:

- Theorem `expr_typed`: a resolved expression keeps the rules.
- Theorem `stmts_typed`: so do resolved statements.
- Theorem `resolve_typed`: so does a program.
-/

namespace Squishc

/-! ## The rules -/

/-- Whether an operator takes operands of the given types. -/
def Op.accepts (op : Op) (left right : Ty) : Bool :=
  if op = .conj || op = .disj then left.compatible .boolean && right.compatible .boolean
  else if op.isComparison then left.compatible right
  else if op = .add then (left.isNumber || left.compatible .string) && left.compatible right
  else left.isNumber && (right.isNumber && left.compatible right)

/-- The operators whose result is a truth value. -/
def Op.givesTruth (op : Op) : Bool := op = .conj || op = .disj || op.isComparison

/-- The type of an operation on operands of the given types. -/
def Op.resultType (op : Op) (left right : Ty) : Ty :=
  if op.givesTruth then .boolean
  else if left.isAny then right
  else left

/-- The types of literal numbers. -/
def Ty.isNumeric : Ty → Bool
  | int | float => true
  | _ => false

/-- The type of an indexed value. -/
def Ty.part? : Ty → Option Ty
  | array element => some element
  | string => some string
  | any => some any
  | _ => none

namespace Node

/-- A node is fit to be a test. -/
def IsTest (n : Node) : Prop := n.type.compatible .boolean = true

/-- An array of the given elements may have the given type. -/
def ElementsGo (type : Ty) : List Node → Prop
  | [] => type = .array .any
  | first :: rest =>
    type = .array first.type ∧ ∀ e ∈ rest, first.type.compatible e.type = true

/-- An operation on one operand of the given type may have the given type. -/
def OperandGoes (op : Op) (operand type : Ty) : Prop :=
  (op = .not ∧ operand.compatible .boolean = true ∧ type = .boolean) ∨
    (op = .sub ∧ operand.isNumber = true ∧ type = operand)

mutual

/-- A node keeps the rules on types. -/
def Typed : Node → Prop
  | string _ type => type = .string
  | array elements type => TypedAll elements ∧ ElementsGo type elements
  | index a i type =>
    a.Typed ∧ i.Typed ∧ i.type.compatible .int = true ∧ a.type.part? = some type
  | call _ args type => TypedAll args ∧ type = .any
  | unary op operand type => operand.Typed ∧ OperandGoes op operand.type type
  | binary op left right type =>
    left.Typed ∧ right.Typed ∧ op.accepts left.type right.type = true ∧
      type = op.resultType left.type right.type
  | conditional consequent test alternate type =>
    consequent.Typed ∧ (test.Typed ∧ test.IsTest) ∧ alternate.Typed ∧ type = consequent.type
  | print argument => argument.Typed
  | declare v initializer => initializer.Typed ∧ v.type = initializer.type
  | assign target source => source.Typed ∧ target.type.compatible source.type = true
  | shortIf test consequence => (test.Typed ∧ test.IsTest) ∧ TypedAll consequence
  | ifElse test consequence alternate =>
    (test.Typed ∧ test.IsTest) ∧ TypedAll consequence ∧ alternate.Typed
  | list items => TypedAll items
  | program statements => TypedAll statements
  | whileLoop test body => (test.Typed ∧ test.IsTest) ∧ TypedAll body
  | forLoop declaration test increment body _ =>
    declaration.Typed ∧ (test.Typed ∧ test.IsTest) ∧ increment.Typed ∧ TypedAll body
  | forEach iterator collection body =>
    collection.Typed ∧ Resolve.itemType? collection.type = some iterator.type ∧ TypedAll body
  | _ => True

/-- Some nodes keep the rules on types. -/
def TypedAll : List Node → Prop
  | [] => True
  | n :: rest => n.Typed ∧ TypedAll rest

end

end Node

namespace Resolve

/-! ## Operations on resolved operands -/

theorem require_holds (condition : Bool) {broken : RuleBreak} {pos : Pos}
    (hbroken : ∀ fault, broken ≠ .scope fault) :
    Ends (require condition broken pos) (fun _ => condition = true) AnyFault :=
  require_ends ignores_anyFault hbroken

theorem checkBoolean_test (n : Node) (pos : Pos) :
    Ends (checkBoolean true n pos) (fun _ => n.IsTest) AnyFault :=
  require_holds (n.type.compatible .boolean) (by simp)

theorem checkOperands_compatible (left right : Node) (pos : Pos) :
    Ends (checkOperands left right pos) (fun _ => left.type.compatible right.type = true)
      AnyFault :=
  require_holds _ (by simp)

theorem unary_typed (op : Op) {operand : Node} (pos : Pos) (h : operand.Typed) :
    Ends (unary true op operand pos) Node.Typed AnyFault := by
  unfold unary
  split
  · refine (checkBoolean_test operand pos).bind fun _ hboolean => ?_
    exact ⟨h, .inl ⟨rfl, hboolean, rfl⟩⟩
  · refine (require_holds operand.type.isNumber (by simp)).bind fun _ hnumber => ?_
    exact ⟨h, .inr ⟨rfl, hnumber, rfl⟩⟩

theorem checkArithmetic_accepts {op : Op} (left right : Node) (leftPos rightPos : Pos)
    (hlogic : ¬ (op = .conj || op = .disj) = true) (hcompare : ¬ op.isComparison = true) :
    Ends (checkArithmetic op left right leftPos rightPos)
      (fun _ => op.accepts left.type right.type = true) AnyFault := by
  unfold checkArithmetic Op.accepts
  rw [if_neg hlogic, if_neg hcompare]
  split
  · refine (require_holds _ (by simp)).bind fun _ hleft => ?_
    refine (checkOperands_compatible left right rightPos).mono fun _ hsame => ?_
    rw [hleft, hsame]
    rfl
  · refine (require_holds left.type.isNumber (by simp)).bind fun _ hleft => ?_
    refine (require_holds right.type.isNumber (by simp)).bind fun _ hright => ?_
    refine (checkOperands_compatible left right rightPos).mono fun _ hsame => ?_
    rw [hleft, hright, hsame]
    rfl

theorem binary_typed (op : Op) {left right : Node} (leftPos rightPos : Pos) (hleft : left.Typed)
    (hright : right.Typed) :
    Ends (binary true op left right leftPos rightPos) Node.Typed AnyFault := by
  unfold binary
  split
  · next hlogic =>
    refine (checkBoolean_test left leftPos).bind fun _ hl => ?_
    refine (checkBoolean_test right rightPos).bind fun _ hr => ?_
    refine ⟨hleft, hright, ?_, ?_⟩
    · rw [Op.accepts, if_pos hlogic, hl, hr]
      rfl
    · rw [Op.resultType, Op.givesTruth, hlogic]
      rfl
  · next hlogic =>
    split
    · next hcompare =>
      refine (checkOperands_compatible left right rightPos).bind fun _ hsame => ?_
      refine ⟨hleft, hright, ?_, ?_⟩
      · rw [Op.accepts, if_neg hlogic, if_pos hcompare, hsame]
      · rw [Op.resultType, Op.givesTruth, hcompare, Bool.or_true]
        rfl
    · next hcompare =>
      refine (checkArithmetic_accepts left right leftPos rightPos hlogic hcompare).bind
        fun _ haccepts => ?_
      refine ⟨hleft, hright, haccepts, ?_⟩
      rw [Op.resultType, Op.givesTruth, Bool.eq_false_iff.mpr hlogic,
        Bool.eq_false_iff.mpr hcompare]
      rfl

theorem checkElements_compatible (first : Ty) (elements : List (Node × Pos)) :
    Ends (checkElements first elements)
      (fun _ => ∀ e ∈ elements, first.compatible e.1.type = true) AnyFault := by
  induction elements with
  | nil =>
    intro e he
    cases he
  | cons element rest ih =>
    refine (require_holds (first.compatible element.1.type) (by simp)).bind fun _ hfirst => ?_
    refine ih.mono fun _ hrest => ?_
    intro e he
    rcases List.mem_cons.mp he with rfl | he
    · exact hfirst
    · exact hrest e he

theorem array_typed {elements : List Node} {positions : List Pos} (h : Node.TypedAll elements)
    (hlength : elements.length = positions.length) :
    Ends (array true elements positions) Node.Typed AnyFault := by
  cases elements with
  | nil => exact ⟨trivial, rfl⟩
  | cons first rest =>
    refine (checkElements_compatible first.type (rest.zip positions.tail)).bind fun _ hrest => ?_
    refine ⟨h, rfl, ?_⟩
    intro e he
    -- Each element but the first has a place of its own, so none escapes the check.
    have hzip : (rest.zip positions.tail).map Prod.fst = rest := by
      apply List.map_fst_zip
      rw [List.length_tail, ← hlength, List.length_cons]
      omega
    rw [← hzip, List.mem_map] at he
    rcases he with ⟨element, helement, rfl⟩
    exact hrest element helement

theorem index_typed {a i : Node} (arrayPos indexPos : Pos) (ha : a.Typed) (hi : i.Typed) :
    Ends (index true a i arrayPos indexPos) Node.Typed AnyFault := by
  refine (require_holds (i.type.compatible .int) (by simp)).bind fun _ hint => ?_
  split
  · next htype => exact ⟨ha, hi, hint, by rw [htype]; rfl⟩
  · next htype => exact ⟨ha, hi, hint, by rw [htype]; rfl⟩
  · next htype => exact ⟨ha, hi, hint, by rw [htype]; rfl⟩
  · trivial

/-! ## Expressions -/

mutual

/-- A resolved expression keeps the rules on types. -/
theorem expr_typed {chain : Chain} (hstrict : isStrict chain = true) :
    ∀ e : Surface.Expr, Ends (expr chain e) Node.Typed AnyFault
  | .int _ _ | .float _ _ | .bool _ _ => trivial
  | .string _ _ => rfl
  | .var pos name => by
    refine (variableUse_ends ignores_anyFault (m := ⟨name, pos⟩) (misses_anyFault chain _)).bind
      fun _ _ => ?_
    trivial
  | .array _ elements => by
    refine (exprs_typed hstrict elements).bind ?_
    rintro nodes ⟨hnodes, hlength⟩
    rw [hstrict]
    exact array_typed hnodes (by rw [List.length_map, hlength])
  | .index _ a i => by
    refine (expr_typed hstrict a).bind fun arrayNode ha => ?_
    refine (expr_typed hstrict i).bind fun indexNode hi => ?_
    rw [hstrict]
    exact index_typed a.pos i.pos ha hi
  | .call pos callee args => by
    refine (calledFunction_ends ignores_anyFault (m := ⟨callee, pos⟩)
      (misses_anyFault chain _)).bind fun f _ => ?_
    refine (exprs_typed hstrict args).bind ?_
    rintro nodes ⟨hnodes, -⟩
    refine (call_ends ignores_anyFault f nodes pos).mono ?_
    rintro n ⟨rfl, -⟩
    exact ⟨hnodes, rfl⟩
  | .unary pos op operand => by
    refine (expr_typed hstrict operand).bind fun n hn => ?_
    rw [hstrict]
    exact unary_typed op pos hn
  | .binary _ op left right => by
    refine (expr_typed hstrict left).bind fun l hl => ?_
    refine (expr_typed hstrict right).bind fun r hr => ?_
    rw [hstrict]
    exact binary_typed op left.pos right.pos hl hr
  | .conditional _ consequent test alternate => by
    refine (expr_typed hstrict consequent).bind fun c hc => ?_
    refine (expr_typed hstrict test).bind fun t ht => ?_
    rw [hstrict]
    refine (checkBoolean_test t test.pos).bind fun _ htest => ?_
    refine (expr_typed hstrict alternate).bind fun a ha => ?_
    exact ⟨hc, ⟨ht, htest⟩, ha, rfl⟩
  | .stray _ => trivial

/-- Resolved expressions keep the rules on types. -/
theorem exprs_typed {chain : Chain} (hstrict : isStrict chain = true) :
    ∀ es : List Surface.Expr, Ends (exprs chain es)
      (fun nodes => Node.TypedAll nodes ∧ nodes.length = es.length) AnyFault
  | [] => ⟨trivial, rfl⟩
  | e :: rest => by
    refine (expr_typed hstrict e).bind fun n hn => ?_
    refine (exprs_typed hstrict rest).bind ?_
    rintro others ⟨hothers, hlength⟩
    exact ⟨⟨hn, hothers⟩, congrArg (· + 1) hlength⟩

end

/-! ## Where the rules hold -/

/-- A declaration changes nothing about whose body a scope belongs to. -/
theorem declare_strict {env : Env} (hstrict : isStrict env.chain = true) (name : String)
    (e : Entity) (pos : Pos) :
    Ends (env.declare name e pos) (fun next => isStrict next.chain = true) AnyFault := by
  unfold Env.declare
  split
  · exact hstrict
  · next top outer hchain =>
    rw [hchain] at hstrict
    unfold Scope.declare?
    split
    · trivial
    · next next hnext =>
      split at hnext
      · cases hnext
      · cases hnext
        exact hstrict

theorem declareVariable_strict {env : Env} (hstrict : isStrict env.chain = true) (name : String)
    (type : Ty) (pos : Pos) :
    Ends (env.declareVariable name type pos)
      (fun r => r.1.type = type ∧ isStrict r.2.chain = true) AnyFault := by
  have hstrict' : isStrict (Env.mk env.chain (env.fresh + 1)).chain = true := hstrict
  exact (declare_strict hstrict' name _ pos).bind fun _ hnext => ⟨rfl, hnext⟩

/-- The scope of a loop belongs to the same body as the scope around it. -/
theorem inside_strict {env : Env} (hstrict : isStrict env.chain = true) (inLoop : Bool) :
    isStrict (env.inside inLoop none).chain = true := by
  rcases env with ⟨chain, fresh⟩
  cases chain with
  | nil => rfl
  | cons top outer => exact hstrict

/-! ## Statements -/

theorem declaration_typed {env : Env} (hstrict : isStrict env.chain = true) (b : Surface.Binding) :
    Ends (declaration env b) (fun r => r.1.Typed ∧ isStrict r.2.chain = true) AnyFault := by
  refine (expr_typed hstrict b.value).bind fun n hn => ?_
  refine (declareVariable_strict hstrict b.name n.type b.pos).bind ?_
  rintro ⟨v, next⟩ ⟨htype, hnext⟩
  exact ⟨⟨hn, htype⟩, hnext⟩

theorem assignment_typed {env : Env} (hstrict : isStrict env.chain = true) (b : Surface.Binding) :
    Ends (assignment env b) Node.Typed AnyFault := by
  refine (assignTarget_ends ignores_anyFault (m := ⟨b.name, b.pos⟩)
    (misses_anyFault env.chain _)).bind fun v _ => ?_
  refine (expr_typed hstrict b.value).bind fun n hn => ?_
  rw [hstrict]
  refine (require_holds (v.type.compatible n.type) (by simp)).bind fun _ hsame => ?_
  exact ⟨hn, hsame⟩

theorem test_typed {env : Env} (hstrict : isStrict env.chain = true) (e : Surface.Expr) :
    Ends (test env e) (fun n => n.Typed ∧ n.IsTest) AnyFault := by
  refine (expr_typed hstrict e).bind fun n hn => ?_
  rw [hstrict]
  exact (checkBoolean_test n e.pos).bind fun _ htest => ⟨hn, htest⟩

mutual

/-- A resolved statement keeps the rules on types. -/
theorem stmt_typed {env : Env} (hstrict : isStrict env.chain = true) : ∀ s : Surface.Stmt,
    Ends (stmt env s) (fun r => r.1.Typed ∧ isStrict r.2.chain = true) AnyFault
  | .print _ value => (expr_typed hstrict value).bind fun _ hn => ⟨hn, hstrict⟩
  | .declare b => declaration_typed hstrict b
  | .assign b => (assignment_typed hstrict b).bind fun _ hn => ⟨hn, hstrict⟩
  | .branch _ e body rest => by
    refine (test_typed hstrict e).bind fun t ht => ?_
    refine (stmts_typed hstrict body).bind ?_
    rintro ⟨nodes, next⟩ ⟨hnodes, hnext⟩
    refine (alternative_typed hnext rest).bind ?_
    rintro ⟨alternate?, last⟩ ⟨helse, hlast⟩
    cases alternate? with
    | none => exact ⟨⟨ht, hnodes⟩, hlast⟩
    | some alternate => exact ⟨⟨ht, hnodes, helse alternate rfl⟩, hlast⟩
  | .whileLoop _ e body => by
    refine (test_typed hstrict e).bind fun t ht => ?_
    refine (stmts_typed (inside_strict hstrict true) body).bind ?_
    rintro ⟨nodes, inner⟩ ⟨hnodes, -⟩
    exact ⟨⟨ht, hnodes⟩, hstrict⟩
  | .forLoop _ init e update body => by
    refine (declaration_typed (inside_strict hstrict true) init).bind ?_
    rintro ⟨d, inner⟩ ⟨hd, hinner⟩
    refine (test_typed hinner e).bind fun t ht => ?_
    refine (assignment_typed hinner update).bind fun increment hincrement => ?_
    refine (stmts_typed hinner body).bind ?_
    rintro ⟨nodes, last⟩ ⟨hnodes, -⟩
    exact ⟨⟨hd, ht, hincrement, hnodes⟩, hstrict⟩
  | .forEach pos e name body => by
    refine (expr_typed hstrict e).bind fun collection hcollection => ?_
    cases hitem : itemType? collection.type with
    | none => trivial
    | some item =>
      refine (declareVariable_strict (inside_strict hstrict true) name item pos).bind ?_
      rintro ⟨v, inner⟩ ⟨htype, hinner⟩
      refine (stmts_typed hinner body).bind ?_
      rintro ⟨nodes, last⟩ ⟨hnodes, -⟩
      exact ⟨⟨hcollection, by rw [hitem, htype], hnodes⟩, hstrict⟩
  | .function pos name params body => by
    have hstrict' : isStrict (Env.mk env.chain (env.fresh + 1 + params.length)).chain = true :=
      hstrict
    refine (declare_strict hstrict' name _ pos).bind fun next hnext => ?_
    -- The rules do not hold in the body, so all that matters is that it can be resolved.
    refine (declareParams_adds (next.inside false _) _).bind fun inner _ => ?_
    refine (stmts_settled inner body).bind ?_
    rintro ⟨nodes, last⟩ -
    exact ⟨trivial, hnext⟩
  | .exit pos => (require_holds env.inLoop (by simp)).bind fun _ _ => ⟨trivial, hstrict⟩
  | .ret pos none => (require_holds env.inFunction (by simp)).bind fun _ _ => ⟨trivial, hstrict⟩
  | .ret pos (some e) => by
    refine (require_holds env.inFunction (by simp)).bind fun _ _ => ?_
    exact (expr_typed hstrict e).bind fun n _ => ⟨trivial, hstrict⟩
  | .call pos callee args => by
    refine (calledFunction_ends ignores_anyFault (m := ⟨callee, pos⟩)
      (misses_anyFault env.chain _)).bind fun f _ => ?_
    refine (exprs_typed hstrict args).bind ?_
    rintro nodes ⟨hnodes, -⟩
    refine (call_ends ignores_anyFault f nodes pos).bind ?_
    rintro n ⟨rfl, -⟩
    exact ⟨⟨hnodes, rfl⟩, hstrict⟩
  | .stray _ => trivial

/-- Resolved statements keep the rules on types. -/
theorem stmts_typed {env : Env} (hstrict : isStrict env.chain = true) : ∀ ss : List Surface.Stmt,
    Ends (stmts env ss) (fun r => Node.TypedAll r.1 ∧ isStrict r.2.chain = true) AnyFault
  | [] => ⟨trivial, hstrict⟩
  | s :: rest => by
    refine (stmt_typed hstrict s).bind ?_
    rintro ⟨n, next⟩ ⟨hn, hnext⟩
    refine (stmts_typed hnext rest).bind ?_
    rintro ⟨others, last⟩ ⟨hothers, hlast⟩
    exact ⟨⟨hn, hothers⟩, hlast⟩

theorem alternative_typed {env : Env} (hstrict : isStrict env.chain = true) :
    ∀ rest : Surface.Else, Ends (alternative env rest)
      (fun r => (∀ n, r.1 = some n → n.Typed) ∧ isStrict r.2.chain = true) AnyFault
  | .absent => ⟨by simp, hstrict⟩
  | .body body => by
    refine (stmts_typed hstrict body).bind ?_
    rintro ⟨nodes, next⟩ ⟨hnodes, hnext⟩
    exact ⟨by rintro n ⟨⟩; exact hnodes, hnext⟩
  | .branch _ e body rest => by
    refine (test_typed hstrict e).bind fun t ht => ?_
    refine (stmts_typed hstrict body).bind ?_
    rintro ⟨nodes, next⟩ ⟨hnodes, hnext⟩
    refine (alternative_typed hnext rest).bind ?_
    rintro ⟨alternate?, last⟩ ⟨helse, hlast⟩
    cases alternate? with
    | none => exact ⟨by rintro n ⟨⟩; exact ⟨ht, hnodes⟩, hlast⟩
    | some alternate =>
      exact ⟨by rintro n ⟨⟩; exact ⟨ht, hnodes, helse alternate rfl⟩, hlast⟩
  | .stray _ => trivial

end

end Resolve

/-- A resolved program keeps the rules on types. -/
theorem resolve_typed {p : Surface.Program} {t : Node} (h : resolve p = .ok t) : t.Typed := by
  have htyped : Ends (resolve p) Node.Typed Resolve.AnyFault := by
    have hstrict : Resolve.isStrict Resolve.Env.initial.chain = true := rfl
    refine (Resolve.stmts_typed hstrict p.statements).bind ?_
    rintro ⟨nodes, env⟩ ⟨hnodes, -⟩
    exact hnodes
  exact htyped.ok h

end Squishc
