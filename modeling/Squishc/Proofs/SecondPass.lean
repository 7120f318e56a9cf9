import Squishc.Proofs.NormalForm

/-!
# Second passes

What the pass has been over once stays as it is when the pass goes over it again,
whatever tree it was at first: nodes may stand where no program has them, and the
increment of a loop may be of any kind.  The pass also meets nothing in its own
results that it did not meet before.  So the rounds of an unrolled loop, which are
copies of a body that is optimized already, come out of a pass of their own
unchanged.

Main results:

- Theorem `optimize_optimize`: optimizing a tree a second time changes nothing.
- Theorem `passable`: a tree without obstacles has none after it was optimized.
- Theorem `optimize_of_mem_optimizeStmts`: each statement that optimizing leaves can
  be optimized once more and stays.
- Theorem `freshRoundsOf_optimizeStmts`: the rounds of an unrolled loop need not be
  optimized once more.
-/

namespace Squishc

namespace Node

/-! ## Lists of nodes -/

theorem simplifyEach_eq_map (ns : List Node) : simplifyEach ns = ns.map simplify := by
  induction ns with
  | nil => rfl
  | cons n rest ih => rw [simplifyEach, ih, List.map_cons]

theorem optimizeAll_eq_map (ns : List Node) : optimizeAll ns = ns.map optimize := by
  rw [optimizeAll, simplifyEach_eq_map, List.map_map]
  rfl

theorem optimizeStmts_eq_flatMap (ns : List Node) :
    optimizeStmts ns = ns.flatMap (fun n => n.optimize.spread) := by
  induction ns with
  | nil => rfl
  | cons n rest ih => rw [optimizeStmts_cons, ih, List.flatMap_cons]

/-! ## Statements at rest -/

/-- A statement that the pass leaves as it is. -/
def AtRest (n : Node) : Prop := n.isList = false ∧ n.optimize = n

/-- A node with parts that stay is at rest if it is not reduced itself. -/
theorem atRest_of_simplify {n : Node} (hlist : n.isList = false) (hparts : n.simplify = n)
    (hreduce : n.reduce = n) : n.AtRest := by
  refine ⟨hlist, ?_⟩
  rw [optimize, hparts, hreduce]

theorem optimizeStmts_of_atRest {ns : List Node} (h : ∀ n ∈ ns, n.AtRest) :
    optimizeStmts ns = ns := by
  induction ns with
  | nil => rfl
  | cons n rest ih =>
    obtain ⟨hlist, hn⟩ := h n List.mem_cons_self
    rw [optimizeStmts_cons, hn, spread_of_isList_eq_false hlist,
      ih fun m hm => h m (List.mem_cons_of_mem n hm)]
    rfl

theorem optimize_of_atRest_spread {n : Node} (h : ∀ m ∈ n.spread, m.AtRest) :
    n.optimize = n := by
  cases n with
  | list items =>
    rw [optimize_list]
    exact congrArg list (optimizeStmts_of_atRest h)
  | _ => exact (h _ List.mem_cons_self).2

/-! ## Trees that settle -/

/-- After one pass a node is what it is after two.  Its simplified form stays, and all
that becomes of it is at rest. -/
structure Settles (n : Node) : Prop where
  parts : n.simplify.simplify = n.simplify
  whole : ∀ m ∈ n.optimize.spread, m.AtRest

namespace Settles

variable {n m : Node}

theorem twice (h : n.Settles) : n.optimize.optimize = n.optimize :=
  optimize_of_atRest_spread h.whole

/-- A node settles if its simplified form stays and what that is reduced to is at
rest. -/
theorem of_reduce (hn : n.simplify = m) (hm : m.simplify = m)
    (hreduce : ∀ k ∈ m.reduce.spread, k.AtRest) : n.Settles where
  parts := by rw [hn, hm]
  whole := by
    rw [optimize, hn]
    exact hreduce

/-- A node settles if its simplified form stays and is not reduced. -/
theorem of_kept (hn : n.simplify = m) (hm : m.simplify = m) (hlist : m.isList = false)
    (hreduce : m.reduce = m) : n.Settles := by
  refine of_reduce hn hm ?_
  rw [hreduce, spread_of_isList_eq_false hlist, List.forall_mem_singleton]
  exact atRest_of_simplify hlist hm hreduce

end Settles

theorem simplifyEach_of_settles {ns : List Node} (h : ∀ n ∈ ns, n.Settles) :
    simplifyEach (simplifyEach ns) = simplifyEach ns := by
  rw [simplifyEach_eq_map, simplifyEach_eq_map, List.map_map]
  exact List.map_congr_left fun n hn => (h n hn).parts

theorem optimizeAll_of_settles {ns : List Node} (h : ∀ n ∈ ns, n.Settles) :
    optimizeAll (optimizeAll ns) = optimizeAll ns := by
  rw [optimizeAll_eq_map, optimizeAll_eq_map, List.map_map]
  exact List.map_congr_left fun n hn => (h n hn).twice

theorem atRest_of_mem_optimizeStmts {ns : List Node} (h : ∀ n ∈ ns, n.Settles) :
    ∀ m ∈ optimizeStmts ns, m.AtRest := by
  intro m hm
  rw [optimizeStmts_eq_flatMap, List.mem_flatMap] at hm
  obtain ⟨n, hn, hm⟩ := hm
  exact (h n hn).whole m hm

theorem optimizeStmts_of_settles {ns : List Node} (h : ∀ n ∈ ns, n.Settles) :
    optimizeStmts (optimizeStmts ns) = optimizeStmts ns :=
  optimizeStmts_of_atRest (atRest_of_mem_optimizeStmts h)

/-! ## Operations -/

theorem settles_unary {op : Op} {operand : Node} (type : Ty) (h : operand.Settles) :
    (unary op operand type).Settles := by
  have hparts : (unary op operand.optimize type).simplify = unary op operand.optimize type :=
    congrArg (unary op · type) h.twice
  refine .of_reduce rfl hparts ?_
  have hreduction := unaryReduction_reduceUnary op operand.optimize type
  change ∀ k ∈ (reduceUnary op operand.optimize type).spread, k.AtRest
  generalize hresult : reduceUnary op operand.optimize type = result at hreduction ⊢
  cases hreduction with
  | number | bool => exact List.forall_mem_singleton.mpr ⟨rfl, rfl⟩
  | kept => exact List.forall_mem_singleton.mpr (atRest_of_simplify rfl hparts hresult)

/-- The sign of something that is no number is not turned once more. -/
theorem atRest_turned {n : Node} (type : Ty) (hn : n.optimize = n) (hnumber : n.isNumber = false) :
    (unary .sub n type).AtRest := by
  refine ⟨rfl, ?_⟩
  rw [optimize_unary, hn]
  cases n with
  | number a => cases hnumber
  | _ => rfl

theorem settles_binary {op : Op} {left right : Node} (type : Ty) (hleft : left.Settles)
    (hright : right.Settles) : (binary op left right type).Settles := by
  have hparts : (binary op left.optimize right.optimize type).simplify =
      binary op left.optimize right.optimize type :=
    congrArg₂ (binary op · · type) hleft.twice hright.twice
  refine .of_reduce rfl hparts ?_
  have hrule := rule_reduceBinary op left.optimize right.optimize type
  change ∀ k ∈ (reduceBinary op left.optimize right.optimize type).spread, k.AtRest
  generalize hresult : reduceBinary op left.optimize right.optimize type = result at hrule ⊢
  cases hrule with
  | @folded a b c => cases c <;> exact List.forall_mem_singleton.mpr ⟨rfl, rfl⟩
  | right => exact hright.whole
  | left => exact hleft.whole
  | turned _ hnumber =>
    exact List.forall_mem_singleton.mpr (atRest_turned type hright.twice hnumber)
  | absorbed => exact List.forall_mem_singleton.mpr ⟨rfl, rfl⟩
  | kept => exact List.forall_mem_singleton.mpr (atRest_of_simplify rfl hparts hresult)

/-! ## Statements -/

theorem settles_assign (target : Variable) {source : Node} (h : source.Settles) :
    (assign target source).Settles := by
  have hparts : (assign target source.optimize).simplify = assign target source.optimize :=
    congrArg (assign target) h.twice
  refine .of_reduce rfl hparts ?_
  change ∀ k ∈ (reduceAssign target source.optimize).spread, k.AtRest
  cases hself : source.optimize.isVariable target with
  | true => simp [reduceAssign, hself, spread]
  | false =>
    have hkept : (assign target source.optimize).reduce = assign target source.optimize := by
      simp [reduce, reduceAssign, hself]
    rw [reduceAssign, hself]
    exact List.forall_mem_singleton.mpr (atRest_of_simplify rfl hparts hkept)

/-- A loop settles that vanishes under a condition on its header, and whose body is
simplified only if it stays. -/
theorem settles_loop {n : Node} {body : List Node} (loop : List Node → Node) (gone : Bool)
    (hbody : ∀ n ∈ body, n.Settles)
    (hsimplify : n.simplify = loop (if gone then body else optimizeStmts body))
    (hagain : ∀ inner, (loop inner).simplify = loop (if gone then inner else optimizeStmts inner))
    (hreduce : ∀ inner, (loop inner).reduce = if gone then list [] else loop inner)
    (hlist : ∀ inner, (loop inner).isList = false) : n.Settles := by
  cases gone with
  | true =>
    refine .of_reduce hsimplify (hagain body) ?_
    rw [hreduce]
    exact fun _ h => absurd h List.not_mem_nil
  | false =>
    refine .of_kept hsimplify ?_ (hlist _) (hreduce _)
    exact (hagain _).trans (congrArg loop (optimizeStmts_of_settles hbody))

theorem settles_whileLoop {test : Node} {body : List Node} (htest : test.Settles)
    (hbody : ∀ n ∈ body, n.Settles) : (whileLoop test body).Settles := by
  refine settles_loop (whileLoop test.optimize) test.optimize.isFalse hbody rfl ?_
    (fun _ => rfl) (fun _ => rfl)
  intro inner
  exact congrArg (simplifyWhile · inner (optimizeStmts inner)) htest.twice

theorem settles_forEach (iterator : Variable) {collection : Node} {body : List Node}
    (hcollection : collection.Settles) (hbody : ∀ n ∈ body, n.Settles) :
    (forEach iterator collection body).Settles := by
  refine settles_loop (forEach iterator collection.optimize) collection.optimize.isEmptyString
    hbody rfl ?_ (fun _ => rfl) (fun _ => rfl)
  intro inner
  exact congrArg (simplifyForEach iterator · inner (optimizeStmts inner)) hcollection.twice

/-! ## Loops with a header -/

/-- An increment is replaced by its optimized form if that is an assignment, and stays
simplified otherwise. -/
theorem keepIncrement_cases (n : Node) :
    (∃ target source, n.reduce = assign target source ∧ keepIncrement n = assign target source) ∨
      keepIncrement n = n := by
  unfold keepIncrement
  split
  · next target source h => exact .inl ⟨target, source, h, rfl⟩
  · exact .inr rfl

theorem optimizeIncrement_of_settles {increment : Node} (h : increment.Settles) :
    increment.optimizeIncrement.optimizeIncrement = increment.optimizeIncrement := by
  rcases keepIncrement_cases increment.simplify with ⟨target, source, hreduce, hkept⟩ | hkept
  · have hincrement : increment.optimize = assign target source := hreduce
    have hassign : reduceAssign target source.optimize = assign target source := by
      rw [← optimize_assign, ← hincrement, h.twice]
    have hsource : source.optimize = source := by
      unfold reduceAssign at hassign
      split at hassign
      · cases hassign
      · exact (assign.inj hassign).2
    have hfirst : increment.optimizeIncrement = assign target source := hkept
    rw [hfirst, optimizeIncrement_assign, hsource]
  · have hfirst : increment.optimizeIncrement = increment.simplify := hkept
    rw [hfirst, optimizeIncrement, h.parts, hkept]

/-- The rounds of a count with a body at rest are at rest. -/
theorem atRest_of_mem_roundsOf (c : Count) {body : List Node} (h : ∀ n ∈ body, n.AtRest) :
    ∀ n ∈ roundsOf c body, n.AtRest := by
  intro n hn
  obtain ⟨round, -, hn⟩ := List.mem_flatMap.mp hn
  rcases List.mem_cons.mp hn with rfl | hn
  · exact ⟨rfl, rfl⟩
  · exact h n hn

theorem settles_forLoop {declaration test increment : Node} {body : List Node}
    (hdeclaration : declaration.Settles) (htest : test.Settles) (hincrement : increment.Settles)
    (hbody : ∀ n ∈ body, n.Settles) :
    (forLoop declaration test increment body false).Settles := by
  have hsimplify : (forLoop declaration test increment body false).simplify =
      unroll declaration.optimize test.optimize increment.optimizeIncrement
        (optimizeStmts body) := rfl
  cases hunrolls : unrolls declaration.optimize test.optimize increment.optimizeIncrement
      (optimizeStmts body) with
  | true =>
    obtain ⟨c, hunroll⟩ := unroll_of_unrolls hunrolls
    refine .of_kept (hsimplify.trans hunroll) ?_ rfl rfl
    have hrounds := optimizeStmts_of_atRest
      (atRest_of_mem_roundsOf c (atRest_of_mem_optimizeStmts hbody))
    exact congrArg (forLoop declaration.optimize test.optimize increment.optimizeIncrement · true)
      hrounds
  | false =>
    have hunroll := unroll_of_not_unrolls hunrolls
    refine .of_kept (hsimplify.trans hunroll) ?_ rfl rfl
    calc (forLoop declaration.optimize test.optimize increment.optimizeIncrement
          (optimizeStmts body) false).simplify
      _ = unroll declaration.optimize.optimize test.optimize.optimize
          increment.optimizeIncrement.optimizeIncrement (optimizeStmts (optimizeStmts body)) := rfl
      _ = unroll declaration.optimize test.optimize increment.optimizeIncrement
          (optimizeStmts body) := by
        rw [hdeclaration.twice, htest.twice, optimizeIncrement_of_settles hincrement,
          optimizeStmts_of_settles hbody]
      _ = _ := hunroll

/-! ## All trees -/

mutual

theorem settles : ∀ n : Node, n.Settles
  | null | foreign | bool _ | number _ | var _ | function _ | exit | shortRet | string _ _ =>
    .of_kept rfl rfl rfl rfl
  | list items =>
    .of_reduce rfl (congrArg list (simplifyEach_of_settles (settlesAll items)))
      (atRest_of_mem_optimizeStmts (settlesAll items))
  | program statements =>
    .of_kept rfl (congrArg program (optimizeStmts_of_settles (settlesAll statements))) rfl rfl
  | print argument => .of_kept rfl (congrArg print (settles argument).twice) rfl rfl
  | declare v initializer =>
    .of_kept rfl (congrArg (declare v) (settles initializer).twice) rfl rfl
  | assign target source => settles_assign target (settles source)
  | shortIf test consequence =>
    .of_kept rfl (congrArg₂ shortIf (settles test).twice
      (optimizeStmts_of_settles (settlesAll consequence))) rfl rfl
  | ifElse test consequence alternate => by
    refine .of_kept rfl ?_ rfl rfl
    change ifElse test.optimize.optimize (optimizeStmts (optimizeStmts consequence))
      alternate.optimize.optimize = _
    rw [(settles test).twice, optimizeStmts_of_settles (settlesAll consequence),
      (settles alternate).twice]
    rfl
  | whileLoop test body => settles_whileLoop (settles test) (settlesAll body)
  | forLoop declaration test increment body true =>
    .of_kept rfl (congrArg (forLoop declaration test increment · true)
      (optimizeStmts_of_settles (settlesAll body))) rfl rfl
  | forLoop declaration test increment body false =>
    settles_forLoop (settles declaration) (settles test) (settles increment) (settlesAll body)
  | forEach iterator collection body =>
    settles_forEach iterator (settles collection) (settlesAll body)
  | define f body =>
    .of_kept rfl (congrArg (define f) (optimizeStmts_of_settles (settlesAll body))) rfl rfl
  | ret expression => .of_kept rfl (congrArg ret (settles expression).twice) rfl rfl
  | call callee args type =>
    .of_kept rfl (congrArg (call callee · type) (optimizeAll_of_settles (settlesAll args))) rfl rfl
  | unary _ operand type => settles_unary type (settles operand)
  | binary _ left right type => settles_binary type (settles left) (settles right)
  | conditional consequent test alternate type => by
    refine .of_kept rfl ?_ rfl rfl
    change conditional consequent.optimize.optimize test.optimize.optimize
      alternate.optimize.optimize type = _
    rw [(settles consequent).twice, (settles test).twice, (settles alternate).twice]
    rfl
  | array elements type =>
    .of_kept rfl (congrArg (array · type) (optimizeAll_of_settles (settlesAll elements))) rfl rfl
  | index a i type =>
    .of_kept rfl (congrArg₂ (index · · type) (settles a).twice (settles i).twice) rfl rfl

theorem settlesAll : ∀ ns : List Node, ∀ n ∈ ns, n.Settles
  | [] => List.forall_mem_nil _
  | n :: rest => List.forall_mem_cons.mpr ⟨settles n, settlesAll rest⟩

end

/-- Optimizing a tree a second time changes nothing. -/
theorem optimize_optimize (n : Node) : n.optimize.optimize = n.optimize := (settles n).twice

/-! ## Obstacles -/

theorem anyObstacle?_eq_none {ns : List Node} :
    anyObstacle? ns = none ↔ ∀ n ∈ ns, n.obstacle? = none := by
  induction ns with
  | nil => simp [anyObstacle?]
  | cons n rest ih => rw [anyObstacle?, Option.or_eq_none_iff, ih, List.forall_mem_cons]

theorem anyObstacle?_spread (n : Node) : anyObstacle? n.spread = n.obstacle? := by
  cases n with
  | list items => rfl
  | _ => exact Option.or_none

/-- A node in which the pass meets no obstacle, neither now nor with simplified parts
nor when it is optimized. -/
structure Passable (n : Node) : Prop where
  parts : n.simplify.obstacle? = none
  whole : n.optimize.obstacle? = none

theorem anyObstacle?_simplifyEach {ns : List Node} (h : ∀ n ∈ ns, n.Passable) :
    anyObstacle? (simplifyEach ns) = none := by
  rw [anyObstacle?_eq_none, simplifyEach_eq_map, List.forall_mem_map]
  exact fun n hn => (h n hn).parts

theorem anyObstacle?_optimizeAll {ns : List Node} (h : ∀ n ∈ ns, n.Passable) :
    anyObstacle? (optimizeAll ns) = none := by
  rw [anyObstacle?_eq_none, optimizeAll_eq_map, List.forall_mem_map]
  exact fun n hn => (h n hn).whole

theorem anyObstacle?_optimizeStmts {ns : List Node} (h : ∀ n ∈ ns, n.Passable) :
    anyObstacle? (optimizeStmts ns) = none := by
  rw [anyObstacle?_eq_none, optimizeStmts_eq_flatMap]
  intro m hm
  obtain ⟨n, hn, hm⟩ := List.mem_flatMap.mp hm
  have hpassable := (h n hn).whole
  rw [← anyObstacle?_spread, anyObstacle?_eq_none] at hpassable
  exact hpassable m hm

theorem passable_assign (target : Variable) {source : Node} (h : source.Passable) :
    (assign target source).Passable where
  parts := h.whole
  whole := by
    rw [optimize_assign, reduceAssign]
    split
    · rfl
    · exact h.whole

theorem passable_unary {op : Op} {operand : Node} (type : Ty) (h : operand.Passable) :
    (unary op operand type).Passable where
  parts := h.whole
  whole := by
    rw [optimize_unary]
    have hreduction := unaryReduction_reduceUnary op operand.optimize type
    generalize reduceUnary op operand.optimize type = result at hreduction ⊢
    cases hreduction with
    | number | bool => rfl
    | kept => exact h.whole

theorem passable_binary {op : Op} {left right : Node} (type : Ty) (hleft : left.Passable)
    (hright : right.Passable) : (binary op left right type).Passable := by
  have hparts : (binary op left.optimize right.optimize type).obstacle? = none := by
    rw [obstacle?, hleft.whole, hright.whole, Option.or_none]
  refine ⟨hparts, ?_⟩
  rw [optimize_binary]
  have hreduction := reduction_reduceBinary op left.optimize right.optimize type
  generalize reduceBinary op left.optimize right.optimize type = result at hreduction ⊢
  cases hreduction with
  | kept => exact hparts
  | left => exact hleft.whole
  | right => exact hright.whole
  | turned => exact hright.whole
  | known c => cases c <;> rfl

/-- A loop is passable that vanishes under a condition on its header, and whose body is
looked into only if it stays. -/
theorem passable_loop {n head : Node} {body : List Node} (loop : List Node → Node) (gone : Bool)
    (hhead : head.obstacle? = none) (hbody : gone = false → ∀ n ∈ body, n.Passable)
    (hsimplify : n.simplify = loop (if gone then body else optimizeStmts body))
    (hreduce : ∀ inner, (loop inner).reduce = if gone then list [] else loop inner)
    (hobstacle : ∀ inner, (loop inner).obstacle? =
      head.obstacle?.or (if gone then none else anyObstacle? inner)) : n.Passable := by
  cases gone with
  | true =>
    refine ⟨?_, ?_⟩
    · rw [hsimplify, hobstacle, hhead]
      rfl
    · rw [optimize, hsimplify, hreduce]
      rfl
  | false =>
    have hparts : (loop (optimizeStmts body)).obstacle? = none := by
      rw [hobstacle, hhead, Option.none_or]
      exact anyObstacle?_optimizeStmts (hbody rfl)
    refine ⟨?_, ?_⟩
    · rw [hsimplify]
      exact hparts
    · rw [optimize, hsimplify, hreduce]
      exact hparts

theorem obstacle?_optimizeIncrement {increment : Node} (h : increment.Passable) :
    increment.optimizeIncrement.obstacle? = none := by
  rcases keepIncrement_cases increment.simplify with ⟨target, source, hreduce, hkept⟩ | hkept
  · have hincrement : increment.optimizeIncrement = increment.optimize := hkept.trans hreduce.symm
    rw [hincrement, h.whole]
  · rw [optimizeIncrement, hkept, h.parts]

theorem passable_forLoop {declaration test increment : Node} {body : List Node}
    (hdeclaration : declaration.Passable) (htest : test.Passable) (hincrement : increment.Passable)
    (hbody : ∀ n ∈ body, n.Passable)
    (hheader : headerObstacle? declaration.optimize test.optimize increment.optimizeIncrement =
      none) :
    (forLoop declaration test increment body false).Passable := by
  have hstmts := anyObstacle?_optimizeStmts hbody
  have hunroll : (unroll declaration.optimize test.optimize increment.optimizeIncrement
      (optimizeStmts body)).obstacle? = none := by
    cases hunrolls : unrolls declaration.optimize test.optimize increment.optimizeIncrement
        (optimizeStmts body) with
    | true =>
      obtain ⟨c, hunroll⟩ := unroll_of_unrolls hunrolls
      rw [hunroll, obstacle?, if_pos rfl, anyObstacle?_eq_none]
      intro n hn
      obtain ⟨round, -, hn⟩ := List.mem_flatMap.mp hn
      rcases List.mem_cons.mp hn with rfl | hn
      · rfl
      · exact anyObstacle?_eq_none.mp hstmts n hn
    | false =>
      rw [unroll_of_not_unrolls hunrolls, obstacle?, hdeclaration.whole, htest.whole,
        obstacle?_optimizeIncrement hincrement, hstmts, optimize_optimize, optimize_optimize,
        optimizeIncrement_of_settles (settles increment), hheader]
      rfl
  refine ⟨hunroll, ?_⟩
  rw [optimize_forLoop]
  exact hunroll

mutual

theorem passable : ∀ n : Node, n.obstacle? = none → n.Passable
  | null, h | foreign, h => by simp [obstacle?] at h
  | bool _, _ | number _, _ | var _, _ | function _, _ | exit, _ | shortRet, _ | string _ _, _ =>
    ⟨rfl, rfl⟩
  | list items, h =>
    have hitems := passableAll items h
    ⟨anyObstacle?_simplifyEach hitems, anyObstacle?_optimizeStmts hitems⟩
  | program statements, h =>
    have hstatements := anyObstacle?_optimizeStmts (passableAll statements h)
    ⟨hstatements, hstatements⟩
  | print argument, h => ⟨(passable argument h).whole, (passable argument h).whole⟩
  | declare _ initializer, h => ⟨(passable initializer h).whole, (passable initializer h).whole⟩
  | assign target source, h => passable_assign target (passable source h)
  | shortIf test consequence, h => by
    rw [obstacle?, Option.or_eq_none_iff] at h
    have hparts : (shortIf test.optimize (optimizeStmts consequence)).obstacle? = none := by
      rw [obstacle?, (passable test h.1).whole,
        anyObstacle?_optimizeStmts (passableAll consequence h.2)]
      rfl
    exact ⟨hparts, hparts⟩
  | ifElse test consequence alternate, h => by
    rw [obstacle?, Option.or_eq_none_iff, Option.or_eq_none_iff] at h
    have hparts : (ifElse test.optimize (optimizeStmts consequence) alternate.optimize).obstacle? =
        none := by
      rw [obstacle?, (passable test h.1).whole,
        anyObstacle?_optimizeStmts (passableAll consequence h.2.1),
        (passable alternate h.2.2).whole]
      rfl
    exact ⟨hparts, hparts⟩
  | whileLoop test body, h => by
    rw [obstacle?, Option.or_eq_none_iff] at h
    refine passable_loop (whileLoop test.optimize) test.optimize.isFalse
      (passable test h.1).whole ?_ rfl (fun _ => rfl) ?_
    · intro hfalse
      exact passableAll body (by simpa [hfalse] using h.2)
    · intro inner
      rw [obstacle?, optimize_optimize]
  | forLoop _ _ _ body true, h =>
    have hbody := anyObstacle?_optimizeStmts (passableAll body h)
    ⟨hbody, hbody⟩
  | forLoop declaration test increment body false, h => by
    simp only [obstacle?, Bool.false_eq_true, if_false, Option.or_eq_none_iff] at h
    obtain ⟨hdeclaration, htest, hincrement, hbody, hheader⟩ := h
    exact passable_forLoop (passable declaration hdeclaration) (passable test htest)
      (passable increment hincrement) (passableAll body hbody) hheader
  | forEach iterator collection body, h => by
    rw [obstacle?, Option.or_eq_none_iff] at h
    refine passable_loop (forEach iterator collection.optimize) collection.optimize.isEmptyString
      (passable collection h.1).whole ?_ rfl (fun _ => rfl) ?_
    · intro hempty
      exact passableAll body (by simpa [hempty] using h.2)
    · intro inner
      rw [obstacle?, optimize_optimize]
  | define _ body, h =>
    have hbody := anyObstacle?_optimizeStmts (passableAll body h)
    ⟨hbody, hbody⟩
  | ret expression, h => ⟨(passable expression h).whole, (passable expression h).whole⟩
  | call _ args _, h =>
    have hargs := anyObstacle?_optimizeAll (passableAll args h)
    ⟨hargs, hargs⟩
  | unary _ operand type, h => passable_unary type (passable operand h)
  | binary _ left right type, h => by
    rw [obstacle?, Option.or_eq_none_iff] at h
    exact passable_binary type (passable left h.1) (passable right h.2)
  | conditional consequent test alternate type, h => by
    rw [obstacle?, Option.or_eq_none_iff, Option.or_eq_none_iff] at h
    have hparts : (conditional consequent.optimize test.optimize alternate.optimize
        type).obstacle? = none := by
      rw [obstacle?, (passable consequent h.1).whole, (passable test h.2.1).whole,
        (passable alternate h.2.2).whole]
      rfl
    exact ⟨hparts, hparts⟩
  | array elements _, h =>
    have helements := anyObstacle?_optimizeAll (passableAll elements h)
    ⟨helements, helements⟩
  | index a i type, h => by
    rw [obstacle?, Option.or_eq_none_iff] at h
    have hparts : (index a.optimize i.optimize type).obstacle? = none := by
      rw [obstacle?, (passable a h.1).whole, (passable i h.2).whole]
      rfl
    exact ⟨hparts, hparts⟩

theorem passableAll : ∀ ns : List Node, anyObstacle? ns = none → ∀ n ∈ ns, n.Passable
  | [], _ => List.forall_mem_nil _
  | n :: rest, h => by
    rw [anyObstacle?, Option.or_eq_none_iff] at h
    exact List.forall_mem_cons.mpr ⟨passable n h.1, passableAll rest h.2⟩

end

/-! ## Copies of a body -/

/-- The rounds of a count in which every statement of the body is optimized once
more. -/
def freshRoundsOf (c : Count) (body : List Node) : List Node :=
  (List.range c.rounds).flatMap fun round =>
    assign c.counter (number (.int (c.value round))) :: body.flatMap (fun n => optimizeStmts [n])

/-- The rounds of an optimized body need not be optimized once more. -/
theorem freshRoundsOf_optimizeStmts (c : Count) (body : List Node) :
    freshRoundsOf c (optimizeStmts body) = roundsOf c (optimizeStmts body) := by
  have hcopy : (optimizeStmts body).flatMap (fun n => optimizeStmts [n]) = optimizeStmts body := by
    simp only [optimizeStmts_cons, optimizeStmts_nil, List.append_nil]
    rw [← optimizeStmts_eq_flatMap, optimizeStmts_of_settles (settlesAll body)]
  rw [freshRoundsOf, roundsOf, hcopy]

end Node

/-- Each statement that optimizing leaves can be optimized once more and stays. -/
theorem optimize_of_mem_optimizeStmts {ns : List Node} (h : Node.anyObstacle? ns = none) {m : Node}
    (hm : m ∈ Node.optimizeStmts ns) : optimize m = .ok m := by
  have hobstacle := Node.anyObstacle?_optimizeStmts (Node.passableAll ns h)
  rw [optimize, Node.anyObstacle?_eq_none.mp hobstacle m hm,
    (Node.atRest_of_mem_optimizeStmts (Node.settlesAll ns) m hm).2]

end Squishc
