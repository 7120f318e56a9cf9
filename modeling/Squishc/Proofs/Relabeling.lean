import Squishc.Proofs.OptimizeScope
import Squishc.Proofs.UnrollSound

/-!
# Other entities in the place of a program's own

A program can be carried over to other entities: every variable and every function
is replaced by another, wherever it occurs.  The optimizer looks at a variable only
to see whether it is the same as another one.  So if different variables stay
different, it does the same to both programs.

Main results:

- Theorem `reduce_relabel`: a node and its counterpart are reduced alike.
- Theorem `optimize_relabel`: the optimized form of the counterpart is the
  counterpart of the optimized form.
-/

namespace Squishc

/-- What becomes of each variable and of each function. -/
structure Relabeling where
  var : Variable → Variable
  function : Function → Function

/-- What becomes of an entity. -/
def Relabeling.entity (m : Relabeling) : Entity → Entity
  | .var v => .var (m.var v)
  | .function f => .function (m.function f)

namespace Node

mutual

/-- A node with other entities. -/
@[simp] def relabel (m : Relabeling) : Node → Node
  | null => null
  | foreign => foreign
  | bool b => bool b
  | number n => number n
  | var v => var (m.var v)
  | function f => function (m.function f)
  | list items => list (relabelAll m items)
  | program statements => program (relabelAll m statements)
  | print argument => print (argument.relabel m)
  | declare v initializer => declare (m.var v) (initializer.relabel m)
  | assign target source => assign (m.var target) (source.relabel m)
  | shortIf test consequence => shortIf (test.relabel m) (relabelAll m consequence)
  | ifElse test consequence alternate =>
    ifElse (test.relabel m) (relabelAll m consequence) (alternate.relabel m)
  | whileLoop test body => whileLoop (test.relabel m) (relabelAll m body)
  | forLoop declaration test increment body unrolled =>
    forLoop (declaration.relabel m) (test.relabel m) (increment.relabel m) (relabelAll m body)
      unrolled
  | forEach iterator collection body =>
    forEach (m.var iterator) (collection.relabel m) (relabelAll m body)
  | define f body => define (m.function f) (relabelAll m body)
  | exit => exit
  | ret expression => ret (expression.relabel m)
  | shortRet => shortRet
  | call callee args type => call (m.function callee) (relabelAll m args) type
  | unary op operand type => unary op (operand.relabel m) type
  | binary op left right type => binary op (left.relabel m) (right.relabel m) type
  | conditional consequent test alternate type =>
    conditional (consequent.relabel m) (test.relabel m) (alternate.relabel m) type
  | string chars type => string chars type
  | array elements type => array (relabelAll m elements) type
  | index a i type => index (a.relabel m) (i.relabel m) type

/-- Some nodes with other entities. -/
def relabelAll (m : Relabeling) : List Node → List Node
  | [] => []
  | n :: rest => n.relabel m :: relabelAll m rest

end

@[simp] theorem relabelAll_eq_map (m : Relabeling) (ns : List Node) :
    relabelAll m ns = ns.map (relabel m) := by
  induction ns with
  | nil => rfl
  | cons n rest ih => rw [relabelAll, ih, List.map_cons]

section

variable {m : Relabeling}

theorem relabel_eq_bool {n : Node} {b : Bool} : n.relabel m = bool b ↔ n = bool b := by
  cases n <;> simp

theorem relabel_eq_number {n : Node} {a : Num} : n.relabel m = number a ↔ n = number a := by
  cases n <;> simp

theorem relabel_eq_var {n : Node} {v : Variable} (h : n.relabel m = var v) :
    ∃ w, n = var w ∧ m.var w = v := by
  cases n <;> simp_all

theorem relabel_eq_declare {n e : Node} {v : Variable} (h : n.relabel m = declare v e) :
    ∃ w i, n = declare w i ∧ m.var w = v ∧ i.relabel m = e := by
  cases n <;> simp_all

theorem relabel_eq_assign {n e : Node} {v : Variable} (h : n.relabel m = assign v e) :
    ∃ w i, n = assign w i ∧ m.var w = v ∧ i.relabel m = e := by
  cases n <;> simp_all

theorem relabel_eq_binary {n l r : Node} {op : Op} {type : Ty}
    (h : n.relabel m = binary op l r type) :
    ∃ left right, n = binary op left right type ∧ left.relabel m = l ∧ right.relabel m = r := by
  cases n <;> simp_all

@[simp] theorem spread_relabel (n : Node) :
    (n.relabel m).spread = n.spread.map (relabel m) := by
  cases n <;> simp [spread]

@[simp] theorem isFalse_relabel (n : Node) : (n.relabel m).isFalse = n.isFalse := by
  cases n <;> simp [isFalse]

@[simp] theorem isEmptyString_relabel (n : Node) :
    (n.relabel m).isEmptyString = n.isEmptyString := by
  cases n <;> simp [isEmptyString]

@[simp] theorem relabel_ofConstant (c : Constant) : (ofConstant c).relabel m = ofConstant c := by
  cases c <;> simp [ofConstant]

/-! ## Reducing

None of the rules on operations looks at an entity. -/

theorem reduceDisjunction_relabel (left right : Node) (type : Ty) :
    reduceDisjunction (left.relabel m) (right.relabel m) type =
      (reduceDisjunction left right type).relabel m := by
  fun_cases reduceDisjunction left right type
  · rfl
  · next hleft =>
    rw [relabel, reduceDisjunction]
    exact fun h => hleft (relabel_eq_bool.mp h)
  · next hleft hright =>
    rw [relabel, reduceDisjunction]
    · exact fun h => hleft (relabel_eq_bool.mp h)
    · exact fun h => hright (relabel_eq_bool.mp h)

theorem reduceLeft_relabel (op : Op) (a : Num) (right : Node) (type : Ty) :
    reduceLeft op a (right.relabel m) type = (reduceLeft op a right type).relabel m := by
  unfold reduceLeft
  split_ifs <;> rfl

theorem reduceRight_relabel (op : Op) (left : Node) (b : Num) (type : Ty) :
    reduceRight op (left.relabel m) b type = (reduceRight op left b type).relabel m := by
  unfold reduceRight
  split_ifs <;> rfl

theorem reduceBinary_relabel (op : Op) (left right : Node) (type : Ty) :
    reduceBinary op (left.relabel m) (right.relabel m) type =
      (reduceBinary op left right type).relabel m := by
  fun_cases reduceBinary op left right type
  · next hop =>
    subst hop
    exact reduceDisjunction_relabel left right type
  · next hop a b c hfold =>
    rw [relabel, relabel, reduceBinary, if_neg hop, hfold, relabel_ofConstant]
  · next hop a b hfold =>
    rw [relabel, relabel, reduceBinary, if_neg hop, hfold]
    rfl
  · next hop a hright =>
    rw [relabel, reduceBinary, if_neg hop, reduceLeft_relabel]
    exact fun b h => hright b (relabel_eq_number.mp h)
  · next hop b hleft =>
    rw [relabel, reduceBinary, if_neg hop, reduceRight_relabel]
    exact fun a h => hleft a (relabel_eq_number.mp h)
  · next hop hleft hright hboth =>
    rw [reduceBinary, if_neg hop, relabel]
    · exact fun a h => hleft a (relabel_eq_number.mp h)
    · exact fun b h => hright b (relabel_eq_number.mp h)
    · exact fun a b h _ => hleft a (relabel_eq_number.mp h)

theorem reduceUnary_relabel (op : Op) (operand : Node) (type : Ty) :
    reduceUnary op (operand.relabel m) type = (reduceUnary op operand type).relabel m := by
  fun_cases reduceUnary op operand type
  · rfl
  · rfl
  · next hnumber hbool =>
    rw [relabel, reduceUnary]
    · exact fun a hop h => hnumber a hop (relabel_eq_number.mp h)
    · exact fun b hop h => hbool b hop (relabel_eq_bool.mp h)

theorem reduceWhile_relabel (test : Node) (body : List Node) :
    reduceWhile (test.relabel m) (body.map (relabel m)) = (reduceWhile test body).relabel m := by
  rw [reduceWhile, isFalse_relabel, reduceWhile]
  split_ifs <;> simp

theorem reduceForEach_relabel (iterator : Variable) (collection : Node) (body : List Node) :
    reduceForEach (m.var iterator) (collection.relabel m) (body.map (relabel m)) =
      (reduceForEach iterator collection body).relabel m := by
  rw [reduceForEach, isEmptyString_relabel, reduceForEach]
  split_ifs <;> simp

/-! ## What a loop's body does -/

mutual

theorem breaksOut_relabel : ∀ n : Node, (n.relabel m).breaksOut = n.breaksOut
  | shortIf test consequence => by
    simp [breaksOut, anyBreaksOut_relabel consequence]
  | ifElse test consequence alternate => by
    have halternate := breaksOut_relabel alternate
    have hspread : anyBreaksOut (alternate.spread.map (relabel m)) =
        anyBreaksOut alternate.spread := by
      cases alternate with
      | list items => exact anyBreaksOut_relabel items
      | _ => simp only [spread, List.map_cons, List.map_nil, anyBreaksOut, halternate]
    simp [breaksOut_ifElse, anyBreaksOut_relabel consequence, hspread]
  | null | foreign | bool _ | number _ | var _ | function _ | list _ | program _ | print _
  | declare _ _ | assign _ _ | whileLoop _ _ | forLoop _ _ _ _ _ | forEach _ _ _ | define _ _
  | exit | ret _ | shortRet | call _ _ _ | unary _ _ _ | binary _ _ _ _ | conditional _ _ _ _
  | string _ _ | array _ _ | index _ _ _ => rfl

theorem anyBreaksOut_relabel : ∀ ns : List Node,
    anyBreaksOut (ns.map (relabel m)) = anyBreaksOut ns
  | [] => rfl
  | n :: rest => by
    simp [anyBreaksOut, breaksOut_relabel n, anyBreaksOut_relabel rest]

end

mutual

theorem declares_relabel : ∀ n : Node, (n.relabel m).declares = n.declares
  | shortIf test consequence => by
    simp [declares, anyDeclares_relabel consequence]
  | ifElse test consequence alternate => by
    have halternate := declares_relabel alternate
    have hspread : anyDeclares (alternate.spread.map (relabel m)) =
        anyDeclares alternate.spread := by
      cases alternate with
      | list items => exact anyDeclares_relabel items
      | _ => simp only [spread, List.map_cons, List.map_nil, anyDeclares, halternate]
    simp [declares_ifElse, anyDeclares_relabel consequence, hspread]
  | null | foreign | bool _ | number _ | var _ | function _ | list _ | program _ | print _
  | declare _ _ | assign _ _ | whileLoop _ _ | forLoop _ _ _ _ _ | forEach _ _ _ | define _ _
  | exit | ret _ | shortRet | call _ _ _ | unary _ _ _ | binary _ _ _ _ | conditional _ _ _ _
  | string _ _ | array _ _ | index _ _ _ => rfl

theorem anyDeclares_relabel : ∀ ns : List Node,
    anyDeclares (ns.map (relabel m)) = anyDeclares ns
  | [] => rfl
  | n :: rest => by
    simp [anyDeclares, declares_relabel n, anyDeclares_relabel rest]

end

/-! ## Comparing variables

From here on different variables have to stay different. -/

theorem isVariable_relabel (hm : Function.Injective m.var) (v : Variable) (n : Node) :
    (n.relabel m).isVariable (m.var v) = n.isVariable v := by
  cases n with
  | var w => simp [isVariable, hm.eq_iff]
  | _ => rfl

theorem reduceAssign_relabel (hm : Function.Injective m.var) (target : Variable) (source : Node) :
    reduceAssign (m.var target) (source.relabel m) = (reduceAssign target source).relabel m := by
  rw [reduceAssign, isVariable_relabel hm, reduceAssign]
  split_ifs <;> simp

mutual

/-- A node and its counterpart are reduced alike. -/
theorem reduce_relabel (hm : Function.Injective m.var) :
    ∀ n : Node, (n.relabel m).reduce = n.reduce.relabel m
  | list items => by simp [reduce, reduceStmts_relabel hm items]
  | assign target source => reduceAssign_relabel hm target source
  | whileLoop test body => by simpa [reduce] using reduceWhile_relabel test body
  | forEach iterator collection body => by
    simpa [reduce] using reduceForEach_relabel iterator collection body
  | unary op operand type => reduceUnary_relabel op operand type
  | binary op left right type => reduceBinary_relabel op left right type
  | null | foreign | bool _ | number _ | var _ | function _ | program _ | print _
  | declare _ _ | shortIf _ _ | ifElse _ _ _ | forLoop _ _ _ _ _ | define _ _
  | exit | ret _ | shortRet | call _ _ _ | conditional _ _ _ _
  | string _ _ | array _ _ | index _ _ _ => rfl

theorem reduceStmts_relabel (hm : Function.Injective m.var) : ∀ ns : List Node,
    reduceStmts (ns.map (relabel m)) = (reduceStmts ns).map (relabel m)
  | [] => rfl
  | n :: rest => by
    simp [reduceStmts, reduce_relabel hm n, reduceStmts_relabel hm rest]

end

mutual

theorem assigns_relabel (hm : Function.Injective m.var) (v : Variable) : ∀ n : Node,
    (n.relabel m).assigns (m.var v) = n.assigns v
  | assign target source => by simp [assigns, hm.eq_iff]
  | shortIf test consequence => by
    simp [assigns, anyAssigns_relabel hm v consequence]
  | ifElse test consequence alternate => by
    have halternate := assigns_relabel hm v alternate
    have hspread : anyAssigns (m.var v) (alternate.spread.map (relabel m)) =
        anyAssigns v alternate.spread := by
      cases alternate with
      | list items => exact anyAssigns_relabel hm v items
      | _ => simp only [spread, List.map_cons, List.map_nil, anyAssigns, halternate]
    simp [assigns_ifElse, anyAssigns_relabel hm v consequence, hspread]
  | whileLoop test body => by simp [assigns, anyAssigns_relabel hm v body]
  | forLoop declaration test increment body unrolled => by
    simp [assigns, assigns_relabel hm v increment, anyAssigns_relabel hm v body]
  | forEach iterator collection body => by
    simp [assigns, anyAssigns_relabel hm v body]
  | define f body => by simp [assigns, anyAssigns_relabel hm v body]
  | null | foreign | bool _ | number _ | var _ | function _ | list _ | program _ | print _
  | declare _ _ | exit | ret _ | shortRet | call _ _ _ | unary _ _ _ | binary _ _ _ _
  | conditional _ _ _ _ | string _ _ | array _ _ | index _ _ _ => rfl

theorem anyAssigns_relabel (hm : Function.Injective m.var) (v : Variable) : ∀ ns : List Node,
    anyAssigns (m.var v) (ns.map (relabel m)) = anyAssigns v ns
  | [] => rfl
  | n :: rest => by
    simp [anyAssigns, assigns_relabel hm v n, anyAssigns_relabel hm v rest]

end

/-! ## Unrolling -/

/-- A count over the counterpart of its counter. -/
def Count.relabel (m : Relabeling) (c : Count) : Count := ⟨m.var c.counter, c.first, c.bound, c.delta⟩

theorem count?_relabel (hm : Function.Injective m.var) (declaration test increment : Node) :
    count? (declaration.relabel m) (test.relabel m) (increment.relabel m) =
      (count? declaration test increment).map (Count.relabel m) := by
  fun_cases count? declaration test increment
  · next v first tested bound _ target added delta _ hcount =>
    simp only [relabel, count?, hm.eq_iff, hcount, if_true, Option.map_some]
    rfl
  · next v first tested bound _ target added delta _ hcount =>
    simp only [relabel, count?, hm.eq_iff, hcount]
    rfl
  · next hother =>
    rw [count?, Option.map_none]
    intro v first tested bound type target added delta type' hd ht hi
    obtain ⟨w, _, rfl, -, hfirst⟩ := relabel_eq_declare hd
    obtain ⟨_, _, rfl, htested, hbound⟩ := relabel_eq_binary ht
    obtain ⟨w', _, rfl, -, hsum⟩ := relabel_eq_assign hi
    obtain ⟨_, _, rfl, hadded, hdelta⟩ := relabel_eq_binary hsum
    obtain ⟨a, rfl, -⟩ := relabel_eq_var htested
    obtain ⟨b, rfl, -⟩ := relabel_eq_var hadded
    rw [relabel_eq_number] at hfirst hbound hdelta
    subst hfirst hbound hdelta
    exact hother w first a bound type w' b delta type' rfl rfl rfl

theorem repeatable_relabel (hm : Function.Injective m.var) (v : Variable) (body : List Node) :
    repeatable (m.var v) (body.map (relabel m)) = repeatable v body := by
  rw [repeatable, anyBreaksOut_relabel, anyAssigns_relabel hm, anyDeclares_relabel, repeatable]

theorem roundsOf_relabel (c : Count) (body : List Node) :
    roundsOf (c.relabel m) (body.map (relabel m)) = (roundsOf c body).map (relabel m) := by
  simp only [roundsOf, List.map_flatMap, List.map_cons]
  rfl

theorem unroll_relabel (hm : Function.Injective m.var) (declaration test increment : Node)
    (body : List Node) :
    unroll (declaration.relabel m) (test.relabel m) (increment.relabel m)
        (body.map (relabel m)) =
      (unroll declaration test increment body).relabel m := by
  rw [unroll, count?_relabel hm, unroll]
  cases count? declaration test increment with
  | none => simp
  | some c =>
    have hrepeat : repeatable (c.relabel m).counter (body.map (relabel m)) =
        repeatable c.counter body := repeatable_relabel hm c.counter body
    have hrounds : (c.relabel m).rounds = c.rounds := rfl
    simp only [Option.map_some, hrepeat, hrounds]
    split_ifs
    · simp [roundsOf_relabel]
    · simp

theorem keepIncrement_relabel (hm : Function.Injective m.var) (n : Node) :
    keepIncrement (n.relabel m) = (keepIncrement n).relabel m := by
  rw [keepIncrement, reduce_relabel hm, keepIncrement]
  cases n.reduce <;> simp

mutual

theorem simplify_relabel (hm : Function.Injective m.var) :
    ∀ n : Node, (n.relabel m).simplify = n.simplify.relabel m
  | list items => by simp [simplify, simplifyEach_relabel hm items]
  | program statements => by
    simp [simplify, simplifyEach_relabel hm statements, reduceStmts_relabel hm]
  | print argument => by
    simp [simplify, simplify_relabel hm argument, reduce_relabel hm]
  | declare v initializer => by
    simp [simplify, simplify_relabel hm initializer, reduce_relabel hm]
  | assign target source => by
    simp [simplify, simplify_relabel hm source, reduce_relabel hm]
  | shortIf test consequence => by
    simp [simplify, simplify_relabel hm test, simplifyEach_relabel hm consequence,
      reduce_relabel hm, reduceStmts_relabel hm]
  | ifElse test consequence alternate => by
    simp [simplify, simplify_relabel hm test, simplifyEach_relabel hm consequence,
      simplify_relabel hm alternate, reduce_relabel hm, reduceStmts_relabel hm]
  | whileLoop test body => by
    simp only [relabel, simplify, simplifyWhile, relabelAll_eq_map, simplify_relabel hm test,
      simplifyEach_relabel hm body, reduce_relabel hm, reduceStmts_relabel hm, isFalse_relabel]
    split_ifs <;> rfl
  | forLoop declaration test increment body unrolled => by
    simp only [relabel, simplify, relabelAll_eq_map, simplify_relabel hm declaration,
      simplify_relabel hm test, simplify_relabel hm increment, simplifyEach_relabel hm body,
      reduce_relabel hm, reduceStmts_relabel hm, keepIncrement_relabel hm, unroll_relabel hm]
    split_ifs
    · simp
    · rfl
  | forEach iterator collection body => by
    simp only [relabel, simplify, simplifyForEach, relabelAll_eq_map,
      simplify_relabel hm collection, simplifyEach_relabel hm body, reduce_relabel hm,
      reduceStmts_relabel hm, isEmptyString_relabel]
    split_ifs <;> rfl
  | define f body => by
    simp [simplify, simplifyEach_relabel hm body, reduceStmts_relabel hm]
  | ret expression => by
    simp [simplify, simplify_relabel hm expression, reduce_relabel hm]
  | call callee args type => by
    simp [simplify, simplifyEach_relabel hm args, reduce_relabel hm]
  | unary op operand type => by
    simp [simplify, simplify_relabel hm operand, reduce_relabel hm]
  | binary op left right type => by
    simp [simplify, simplify_relabel hm left, simplify_relabel hm right,
      reduce_relabel hm]
  | conditional consequent test alternate type => by
    simp [simplify, simplify_relabel hm consequent, simplify_relabel hm test,
      simplify_relabel hm alternate, reduce_relabel hm]
  | array elements type => by
    simp [simplify, simplifyEach_relabel hm elements, reduce_relabel hm]
  | index a i type => by
    simp [simplify, simplify_relabel hm a, simplify_relabel hm i, reduce_relabel hm]
  | null | foreign | bool _ | number _ | var _ | function _ | exit | shortRet | string _ _ => rfl

theorem simplifyEach_relabel (hm : Function.Injective m.var) : ∀ ns : List Node,
    simplifyEach (ns.map (relabel m)) = (simplifyEach ns).map (relabel m)
  | [] => rfl
  | n :: rest => by
    simp [simplifyEach, simplify_relabel hm n, simplifyEach_relabel hm rest]

end

/-- The optimized form of the counterpart of a node is the counterpart of its
optimized form. -/
theorem optimize_relabel (hm : Function.Injective m.var) (n : Node) :
    (n.relabel m).optimize = n.optimize.relabel m := by
  rw [optimize, simplify_relabel hm, reduce_relabel hm, optimize]

end

end Node

end Squishc
