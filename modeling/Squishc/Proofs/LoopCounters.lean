import Mathlib.Data.List.Nodup
import Squishc.Proofs.ReductionSound

/-!
# Counters of loops

The names that a typed tree declares and mentions, as far as they matter for
loops with a header.  The counter of such a loop is its own: nothing outside the
loop mentions it.  Optimizing may leave a counter with another value behind the
loop, so a run is only determined up to the counters of finished loops.

Main results:

- Theorem `declaredIn_optimizeStmts`: optimizing declares nothing new.
- Theorem `eval_congr`: the value of an expression depends on the variables that
  it mentions.
-/

namespace Squishc.Node

mutual

/-- The entities that a node declares, in their order. -/
def declared : Node → List Entity
  | list items => declaredIn items
  | program statements => declaredIn statements
  | print argument => argument.declared
  | declare v initializer => initializer.declared ++ [.var v]
  | assign _ source => source.declared
  | shortIf test consequence => test.declared ++ declaredIn consequence
  | ifElse test consequence alternate =>
    test.declared ++ (declaredIn consequence ++ alternate.declared)
  | whileLoop test body => test.declared ++ declaredIn body
  | forLoop declaration test increment body _ =>
    declaration.declared ++ (test.declared ++ (increment.declared ++ declaredIn body))
  | forEach iterator collection body =>
    collection.declared ++ .var iterator :: declaredIn body
  | define f body => .function f :: (f.params.map .var ++ declaredIn body)
  | ret expression => expression.declared
  | call _ args _ => declaredIn args
  | unary _ operand _ => operand.declared
  | binary _ left right _ => left.declared ++ right.declared
  | conditional consequent test alternate _ =>
    consequent.declared ++ (test.declared ++ alternate.declared)
  | array elements _ => declaredIn elements
  | index a i _ => a.declared ++ i.declared
  | null | foreign | bool _ | number _ | var _ | function _ | exit | shortRet | string _ _ => []

/-- The entities that some nodes declare. -/
def declaredIn : List Node → List Entity
  | [] => []
  | n :: rest => n.declared ++ declaredIn rest

end

/-- The variable that a declaration declares, with its first value. -/
def header? : Node → Option (Variable × Node)
  | declare v initializer => some (v, initializer)
  | _ => none

mutual

/-- The variables that a node mentions, apart from the counters of the loops in
it. -/
def free : Node → List Variable
  | var v => [v]
  | list items => freeIn items
  | program statements => freeIn statements
  | print argument => argument.free
  | declare v initializer => v :: initializer.free
  | assign target source => target :: source.free
  | shortIf test consequence => test.free ++ freeIn consequence
  | ifElse test consequence alternate => test.free ++ (freeIn consequence ++ alternate.free)
  | whileLoop test body => test.free ++ freeIn body
  | forLoop declaration test increment body _ =>
    (declaration.free ++ (test.free ++ (increment.free ++ freeIn body))).filter
      (fun v => declaration.header?.map Prod.fst ≠ some v)
  | forEach iterator collection body => iterator :: (collection.free ++ freeIn body)
  | define f body => f.params ++ freeIn body
  | ret expression => expression.free
  | call _ args _ => freeIn args
  | unary _ operand _ => operand.free
  | binary _ left right _ => left.free ++ right.free
  | conditional consequent test alternate _ => consequent.free ++ (test.free ++ alternate.free)
  | array elements _ => freeIn elements
  | index a i _ => a.free ++ i.free
  | null | foreign | bool _ | number _ | function _ | exit | shortRet | string _ _ => []

/-- The variables that some nodes mention, apart from the counters of the loops in
them. -/
def freeIn : List Node → List Variable
  | [] => []
  | n :: rest => n.free ++ freeIn rest

end

mutual

/-- The counters of the loops in a statement, each with its first value. -/
def headers : Node → List (Variable × Node)
  | list items => headersIn items
  | program statements => headersIn statements
  | shortIf _ consequence => headersIn consequence
  | ifElse _ consequence alternate => headersIn consequence ++ alternate.headers
  | whileLoop _ body => headersIn body
  | forLoop declaration _ _ body _ => declaration.header?.toList ++ headersIn body
  | forEach _ _ body => headersIn body
  | define _ body => headersIn body
  | _ => []

/-- The counters of the loops in some statements, each with its first value. -/
def headersIn : List Node → List (Variable × Node)
  | [] => []
  | n :: rest => n.headers ++ headersIn rest

end

/-- The counters of the loops in a statement. -/
def counters (n : Node) : List Variable := n.headers.map Prod.fst

mutual

/-- Whether no loop in a statement was unrolled. -/
def rolled : Node → Bool
  | list items => allRolled items
  | program statements => allRolled statements
  | shortIf _ consequence => allRolled consequence
  | ifElse _ consequence alternate => allRolled consequence && alternate.rolled
  | whileLoop _ body => allRolled body
  | forLoop _ _ _ body unrolled => !unrolled && allRolled body
  | forEach _ _ body => allRolled body
  | define _ body => allRolled body
  | _ => true

/-- Whether no loop in some statements was unrolled. -/
def allRolled : List Node → Bool
  | [] => true
  | n :: rest => n.rolled && allRolled rest

end

/-! ## Alternatives of branches -/

@[simp] theorem declaredIn_spread (n : Node) : declaredIn n.spread = n.declared := by
  cases n <;> simp [spread, declaredIn, declared]

@[simp] theorem freeIn_spread (n : Node) : freeIn n.spread = n.free := by
  cases n <;> simp [spread, freeIn, free]

@[simp] theorem headersIn_spread (n : Node) : headersIn n.spread = n.headers := by
  cases n <;> simp [spread, headersIn, headers]

@[simp] theorem allRolled_spread (n : Node) : allRolled n.spread = n.rolled := by
  cases n <;> simp [spread, allRolled, rolled]

/-! ## Declarations -/

@[simp] theorem declaredIn_append (xs ys : List Node) :
    declaredIn (xs ++ ys) = declaredIn xs ++ declaredIn ys := by
  induction xs with
  | nil => simp [declaredIn]
  | cons n rest ih => simp [declaredIn, ih]

/-- The entity of a counter. -/
def counterEntity (h : Variable × Node) : Entity := .var h.1

/-- The variable of a header is declared by it. -/
theorem header?_sublist (n : Node) :
    List.Sublist (n.header?.toList.map counterEntity) n.declared := by
  cases n with
  | declare v initializer => exact List.sublist_append_right ..
  | _ => exact List.nil_sublist _

mutual

/-- The counters of loops are declared, in their order. -/
theorem headers_sublist : ∀ n : Node, List.Sublist (n.headers.map counterEntity) n.declared
  | list items => headersIn_sublist items
  | program statements => headersIn_sublist statements
  | shortIf _ consequence => (headersIn_sublist consequence).trans (List.sublist_append_right ..)
  | ifElse _ consequence alternate => by
    simp only [headers, declared, List.map_append]
    exact ((headersIn_sublist consequence).append (headers_sublist alternate)).trans
      (List.sublist_append_right ..)
  | whileLoop _ body => (headersIn_sublist body).trans (List.sublist_append_right ..)
  | forLoop declaration test increment body _ => by
    simp only [headers, declared, List.map_append]
    refine (header?_sublist declaration).append ?_
    rw [← List.append_assoc]
    exact (headersIn_sublist body).trans (List.sublist_append_right ..)
  | forEach iterator _ body => by
    simp only [headers, declared]
    exact ((headersIn_sublist body).cons (.var iterator)).trans (List.sublist_append_right ..)
  | define f body => by
    simp only [headers, declared]
    exact ((headersIn_sublist body).trans (List.sublist_append_right ..)).cons (.function f)
  | null | foreign | bool _ | number _ | var _ | function _ | print _ | declare _ _ | assign _ _
  | exit | ret _ | shortRet | call _ _ _ | unary _ _ _ | binary _ _ _ _
  | conditional _ _ _ _ | string _ _ | array _ _ | index _ _ _ => List.nil_sublist _

/-- The counters of the loops in some statements are declared there, in their
order. -/
theorem headersIn_sublist : ∀ items : List Node,
    List.Sublist ((headersIn items).map counterEntity) (declaredIn items)
  | [] => List.nil_sublist _
  | n :: rest => by
    simp only [headersIn, declaredIn, List.map_append]
    exact (headers_sublist n).append (headersIn_sublist rest)

end

/-- Loops with distinct declarations have distinct counters. -/
theorem header_unique {n : Node} (hdistinct : n.declared.Nodup) {h k : Variable × Node}
    (hh : h ∈ n.headers) (hk : k ∈ n.headers) (hsame : h.1 = k.1) : h = k :=
  List.inj_on_of_nodup_map ((headers_sublist n).nodup hdistinct) hh hk
    (congrArg Entity.var hsame)

/-! ## Declarations in optimized trees -/

theorem declared_reduceUnary (op : Op) (operand : Node) (type : Ty) :
    (reduceUnary op operand type).declared ⊆ operand.declared := by
  fun_cases reduceUnary op operand type <;> simp [declared]

theorem Reduction.declared_subset {op : Op} {left right n : Node} {type : Ty}
    (h : Reduction op left right type n) : n.declared ⊆ left.declared ++ right.declared := by
  cases h with
  | kept => simp [declared]
  | left => simp
  | right => simp
  | turned => simp [declared]
  | known c => cases c <;> simp [ofConstant, declared]

mutual

/-- Reducing a node declares nothing new. -/
theorem declared_reduce : ∀ n : Node, n.reduce.declared ⊆ n.declared
  | list items => by
    rw [reduce, declared, declared]
    exact declaredIn_reduceStmts items
  | assign target source => by
    rw [reduce, reduceAssign]
    split_ifs <;> simp [declared, declaredIn]
  | whileLoop test body => by
    rw [reduce, reduceWhile]
    split_ifs <;> simp [declared, declaredIn]
  | forEach iterator collection body => by
    rw [reduce, reduceForEach]
    split_ifs <;> simp [declared, declaredIn]
  | unary op operand type => declared_reduceUnary op operand type
  | binary op left right type => (reduction_reduceBinary op left right type).declared_subset
  | null | foreign | bool _ | number _ | var _ | function _ | program _ | print _ | declare _ _
  | shortIf _ _ | ifElse _ _ _ | forLoop _ _ _ _ _ | define _ _ | exit | ret _ | shortRet
  | call _ _ _ | conditional _ _ _ _ | string _ _ | array _ _ | index _ _ _ => by
    simp [reduce]

/-- Reducing some statements declares nothing new. -/
theorem declaredIn_reduceStmts : ∀ items : List Node,
    declaredIn (reduceStmts items) ⊆ declaredIn items
  | [] => by simp [reduceStmts]
  | n :: rest => by
    intro e he
    simp only [reduceStmts, declaredIn_append, declaredIn_spread, declaredIn,
      List.mem_append] at he ⊢
    exact he.imp (@declared_reduce n e) (@declaredIn_reduceStmts rest e)

end

theorem declared_keepIncrement (n : Node) : (keepIncrement n).declared ⊆ n.declared := by
  unfold keepIncrement
  split
  · next target source hreduced =>
    rw [← hreduced]
    exact declared_reduce n
  · exact List.Subset.refl _

theorem declaredIn_map_reduce (items : List Node) :
    declaredIn (items.map reduce) ⊆ declaredIn items := by
  induction items with
  | nil => simp [declaredIn]
  | cons n rest ih =>
    intro e he
    simp only [List.map_cons, declaredIn, List.mem_append] at he ⊢
    exact he.imp (@declared_reduce n e) (@ih e)

/-- The rounds of a loop declare what its body declares. -/
theorem declaredIn_roundsOf (c : Count) (body : List Node) :
    declaredIn (roundsOf c body) ⊆ declaredIn body := by
  have hrounds : ∀ rounds : List Nat,
      declaredIn (rounds.flatMap
        (fun round => assign c.counter (number (.int (c.value round))) :: body)) ⊆
      declaredIn body := by
    intro rounds
    induction rounds with
    | nil => simp [declaredIn]
    | cons round rest ih => simpa [declaredIn, declared] using ih
  exact hrounds _

theorem declared_unroll (declaration test increment : Node) (body : List Node) :
    (unroll declaration test increment body).declared ⊆
      (forLoop declaration test increment body false).declared := by
  unfold unroll
  split
  · split_ifs
    · intro e he
      simp only [declared, List.mem_append] at he ⊢
      exact he.imp id (.imp id (.imp id (@declaredIn_roundsOf _ _ e)))
    · simp [declared]
  · simp [declared]

mutual

/-- Simplifying the parts of a node declares nothing new. -/
theorem declared_simplify : ∀ n : Node, n.simplify.declared ⊆ n.declared
  | list items => by
    simp only [simplify, declared]
    exact declaredIn_simplifyEach items
  | program statements => by
    intro e he
    simp only [simplify, declared] at he ⊢
    exact declaredIn_simplifyEach statements (declaredIn_reduceStmts _ he)
  | print argument => by
    intro e he
    simp only [simplify, declared] at he ⊢
    exact declared_simplify argument (declared_reduce _ he)
  | declare v initializer => by
    intro e he
    simp only [simplify, declared, List.mem_append] at he ⊢
    exact he.imp (fun h => declared_simplify initializer (declared_reduce _ h)) id
  | assign target source => by
    intro e he
    simp only [simplify, declared] at he ⊢
    exact declared_simplify source (declared_reduce _ he)
  | shortIf test consequence => by
    intro e he
    simp only [simplify, declared, List.mem_append] at he ⊢
    exact he.imp (fun h => declared_simplify test (declared_reduce _ h))
      (fun h => declaredIn_simplifyEach consequence (declaredIn_reduceStmts _ h))
  | ifElse test consequence alternate => by
    intro e he
    simp only [simplify, declared, List.mem_append] at he ⊢
    exact he.imp (fun h => declared_simplify test (declared_reduce _ h))
      (.imp (fun h => declaredIn_simplifyEach consequence (declaredIn_reduceStmts _ h))
        (fun h => declared_simplify alternate (declared_reduce _ h)))
  | whileLoop test body => by
    intro e he
    simp only [simplify, simplifyWhile, declared, List.mem_append] at he ⊢
    refine he.imp (fun h => declared_simplify test (declared_reduce _ h)) (fun h => ?_)
    split_ifs at h
    · exact h
    · exact declaredIn_simplifyEach body (declaredIn_reduceStmts _ h)
  | forLoop declaration test increment body unrolled => by
    intro e he
    simp only [simplify] at he
    split_ifs at he
    · simp only [declared, List.mem_append] at he ⊢
      exact he.imp id (.imp id (.imp id
        (fun h => declaredIn_simplifyEach body (declaredIn_reduceStmts _ h))))
    · replace he := declared_unroll _ _ _ _ he
      simp only [declared, List.mem_append] at he ⊢
      exact he.imp (fun h => declared_simplify declaration (declared_reduce _ h))
        (.imp (fun h => declared_simplify test (declared_reduce _ h))
          (.imp (fun h => declared_simplify increment (declared_keepIncrement _ h))
            (fun h => declaredIn_simplifyEach body (declaredIn_reduceStmts _ h))))
  | forEach iterator collection body => by
    intro e he
    simp only [simplify, simplifyForEach, declared, List.mem_append, List.mem_cons] at he ⊢
    refine he.imp (fun h => declared_simplify collection (declared_reduce _ h))
      (.imp id (fun h => ?_))
    split_ifs at h
    · exact h
    · exact declaredIn_simplifyEach body (declaredIn_reduceStmts _ h)
  | define f body => by
    intro e he
    simp only [simplify, declared, List.mem_append, List.mem_cons] at he ⊢
    exact he.imp id (.imp id
      (fun h => declaredIn_simplifyEach body (declaredIn_reduceStmts _ h)))
  | ret expression => by
    intro e he
    simp only [simplify, declared] at he ⊢
    exact declared_simplify expression (declared_reduce _ he)
  | call callee args type => by
    intro e he
    simp only [simplify, declared] at he ⊢
    exact declaredIn_simplifyEach args (declaredIn_map_reduce _ he)
  | unary op operand type => by
    intro e he
    simp only [simplify, declared] at he ⊢
    exact declared_simplify operand (declared_reduce _ he)
  | binary op left right type => by
    intro e he
    simp only [simplify, declared, List.mem_append] at he ⊢
    exact he.imp (fun h => declared_simplify left (declared_reduce _ h))
      (fun h => declared_simplify right (declared_reduce _ h))
  | conditional consequent test alternate type => by
    intro e he
    simp only [simplify, declared, List.mem_append] at he ⊢
    exact he.imp (fun h => declared_simplify consequent (declared_reduce _ h))
      (.imp (fun h => declared_simplify test (declared_reduce _ h))
        (fun h => declared_simplify alternate (declared_reduce _ h)))
  | array elements type => by
    intro e he
    simp only [simplify, declared] at he ⊢
    exact declaredIn_simplifyEach elements (declaredIn_map_reduce _ he)
  | index a i type => by
    intro e he
    simp only [simplify, declared, List.mem_append] at he ⊢
    exact he.imp (fun h => declared_simplify a (declared_reduce _ h))
      (fun h => declared_simplify i (declared_reduce _ h))
  | null | foreign | bool _ | number _ | var _ | function _ | exit | shortRet | string _ _ => by
    simp [simplify]

/-- Simplifying the parts of some nodes declares nothing new. -/
theorem declaredIn_simplifyEach : ∀ items : List Node,
    declaredIn (simplifyEach items) ⊆ declaredIn items
  | [] => by simp [simplifyEach]
  | n :: rest => by
    intro e he
    simp only [simplifyEach, declaredIn, List.mem_append] at he ⊢
    exact he.imp (@declared_simplify n e) (@declaredIn_simplifyEach rest e)

end

/-- Optimizing declares nothing new. -/
theorem declaredIn_optimizeStmts (items : List Node) :
    declaredIn (optimizeStmts items) ⊆ declaredIn items := by
  intro e he
  exact declaredIn_simplifyEach items (declaredIn_reduceStmts _ he)

/-! ## Values and the variables they depend on -/

/-- The value of an expression depends on the variables that it mentions. -/
theorem eval_congr {σ τ : Store} : ∀ e : Node, (∀ v ∈ e.free, σ v = τ v) → e.eval σ = e.eval τ
  | var v, h => h v (by simp [free])
  | unary op operand type, h => by
    rw [eval, eval, eval_congr operand h]
  | binary op left right type, h => by
    simp only [free, List.mem_append] at h
    rw [eval, eval, eval_congr left (fun v hv => h v (.inl hv)),
      eval_congr right (fun v hv => h v (.inr hv))]
  | conditional consequent test alternate type, h => by
    simp only [free, List.mem_append] at h
    rw [eval, eval, eval_congr test (fun v hv => h v (.inr (.inl hv))),
      eval_congr consequent (fun v hv => h v (.inl hv)),
      eval_congr alternate (fun v hv => h v (.inr (.inr hv)))]
  | index a i type, h => by
    simp only [free, List.mem_append] at h
    rw [eval, eval, eval_congr a (fun v hv => h v (.inl hv)),
      eval_congr i (fun v hv => h v (.inr hv))]
  | number (.int _), _ | number (.float _), _ => rfl
  | null, _ | foreign, _ | bool _, _ | function _, _ | list _, _ | program _, _ | print _, _
  | declare _ _, _ | assign _ _, _ | shortIf _ _, _ | ifElse _ _ _, _ | whileLoop _ _, _
  | forLoop _ _ _ _ _, _ | forEach _ _ _, _ | define _ _, _ | exit, _ | ret _, _
  | shortRet, _ | call _ _ _, _ | string _ _, _ | array _ _, _ => rfl

end Squishc.Node
