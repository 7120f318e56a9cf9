import Squishc.Proofs.SecondPass
import Squishc.Proofs.UnrollSound

/-!
# The rounds of an unrolled loop

A loop that counts runs one round for each value that its counter has while the
test holds.  Unrolling computes their number by a division that rounds; here the
values are those that the loop itself would meet, one after another, until its test
fails for the first time.

Main results:

- Theorem `Count.counts_values`: the values of the rounds are those that the loop
  meets.
- Theorem `unrolled_rounds_count`: a loop is unrolled if it meets at most 64 values,
  and then its body holds, for each of them, an assignment to the counter and the
  optimized body.
-/

namespace Squishc

namespace Node

/-! ## Counting -/

/-- The values of a counter that grows by `delta` from a first value on, up to the
first one that is not below `bound`. -/
inductive Counts (bound delta : Int) : Int → List Int → Prop where
  | ended {v : Int} (h : ¬ v < bound) : Counts bound delta v []
  | round {v : Int} {later : List Int} (h : v < bound)
      (hlater : Counts bound delta (v + delta) later) : Counts bound delta v (v :: later)

/-- The values of the counter in the rounds of a count. -/
def Count.values (c : Count) : List Int := (List.range c.rounds).map c.value

theorem Count.length_values (c : Count) : c.values.length = c.rounds := by
  rw [values, List.length_map, List.length_range]

/-- The values from a round on are those that the loop still meets. -/
theorem Count.counts_from (c : Count) (hdelta : 0 < c.delta) {count : Nat} (round : Nat)
    (hcount : count = c.rounds - round) :
    Counts c.bound c.delta (c.value round) ((List.range' round count).map c.value) := by
  induction count generalizing round with
  | zero =>
    have hend : ¬ c.value round < c.bound := by
      rw [← c.lt_rounds_iff hdelta]
      omega
    exact .ended hend
  | succ count ih =>
    have hnext : c.value round < c.bound := by
      rw [← c.lt_rounds_iff hdelta]
      omega
    have hlater := ih (round + 1) (by omega)
    rw [c.value_succ] at hlater
    exact .round hnext hlater

/-- The values of the rounds are those that the loop meets. -/
theorem Count.counts_values (c : Count) (hdelta : 0 < c.delta) :
    Counts c.bound c.delta c.first c.values := by
  have hfirst : c.value 0 = c.first := by simp [value]
  have hcounts := c.counts_from hdelta 0 rfl
  rw [hfirst] at hcounts
  rw [values, List.range_eq_range']
  exact hcounts

theorem roundsOf_eq_flatMap (c : Count) (body : List Node) :
    roundsOf c body = c.values.flatMap (fun x => assign c.counter (number (.int x)) :: body) := by
  rw [roundsOf, Count.values, List.flatMap_map]

/-! ## Assigned values -/

mutual

/-- The sources of all assignments to a variable in a statement, in their order. -/
def assigned (v : Variable) : Node → List Node
  | assign target source => if target = v then [source] else []
  | shortIf _ consequence => assignedIn v consequence
  | ifElse _ consequence (list items) => assignedIn v consequence ++ assignedIn v items
  | ifElse _ consequence alternate => assignedIn v consequence ++ alternate.assigned v
  | whileLoop _ body => assignedIn v body
  | forLoop _ _ increment body _ => increment.assigned v ++ assignedIn v body
  | forEach _ _ body => assignedIn v body
  | define _ body => assignedIn v body
  | _ => []

/-- The sources of all assignments to a variable in some statements. -/
def assignedIn (v : Variable) : List Node → List Node
  | [] => []
  | n :: rest => n.assigned v ++ assignedIn v rest

end

theorem assignedIn_append (v : Variable) (ns ms : List Node) :
    assignedIn v (ns ++ ms) = assignedIn v ns ++ assignedIn v ms := by
  induction ns with
  | nil => rfl
  | cons n rest ih => rw [List.cons_append, assignedIn, assignedIn, ih, List.append_assoc]

theorem assigned_ifElse (v : Variable) (test : Node) (consequence : List Node) (alternate : Node) :
    (ifElse test consequence alternate).assigned v =
      assignedIn v consequence ++ assignedIn v alternate.spread := by
  cases alternate <;> simp [assigned, spread, assignedIn]

mutual

theorem assigned_eq_nil (v : Variable) : ∀ n : Node, n.assigns v = false → n.assigned v = []
  | assign target source, h => by simpa [assigns, assigned] using h
  | shortIf _ consequence, h => assignedIn_eq_nil v consequence h
  | ifElse test consequence alternate, h => by
    rw [assigns_ifElse, Bool.or_eq_false_iff] at h
    rw [assigned_ifElse, assignedIn_eq_nil v consequence h.1]
    have halternate := assigned_eq_nil v alternate
    cases alternate with
    | list items => exact assignedIn_eq_nil v items h.2
    | _ => exact congrArg (· ++ []) (halternate (Bool.or_eq_false_iff.mp h.2).1)
  | whileLoop _ body, h => assignedIn_eq_nil v body h
  | forLoop _ _ increment body _, h => by
    rw [assigns, Bool.or_eq_false_iff] at h
    rw [assigned, assigned_eq_nil v increment h.1, assignedIn_eq_nil v body h.2]
    rfl
  | forEach _ _ body, h => assignedIn_eq_nil v body h
  | define _ body, h => assignedIn_eq_nil v body h
  | null, _ | foreign, _ | bool _, _ | number _, _ | var _, _ | function _, _ | list _, _
  | program _, _ | print _, _ | declare _ _, _ | exit, _ | ret _, _ | shortRet, _ | call _ _ _, _
  | unary _ _ _, _ | binary _ _ _ _, _ | conditional _ _ _ _, _ | string _ _, _ | array _ _, _
  | index _ _ _, _ => rfl

theorem assignedIn_eq_nil (v : Variable) : ∀ ns : List Node, anyAssigns v ns = false →
    assignedIn v ns = []
  | [], _ => rfl
  | n :: rest, h => by
    rw [anyAssigns, Bool.or_eq_false_iff] at h
    rw [assignedIn, assigned_eq_nil v n h.1, assignedIn_eq_nil v rest h.2]
    rfl

end

/-- A round assigns one value to the counter if its body assigns none. -/
theorem assignedIn_rounds {v : Variable} {body : List Node} (h : anyAssigns v body = false)
    (values : List Int) :
    assignedIn v (values.flatMap (fun x => assign v (number (.int x)) :: body)) =
      values.map (fun x => number (.int x)) := by
  induction values with
  | nil => rfl
  | cons x rest ih =>
    rw [List.flatMap_cons, assignedIn_append, ih, assignedIn, assignedIn_eq_nil v body h, assigned,
      if_pos rfl]
    rfl

/-! ## Unrolling -/

/-- A loop with the header of a count is unrolled if the rounds are few and the body
can be repeated. -/
theorem unroll_of_count (c : Count) (type type' : Ty) {body : List Node} (hdelta : 0 < c.delta)
    (hleaves : anyBreaksOut body = false) (hassigns : anyAssigns c.counter body = false)
    (hdeclares : anyDeclares body = false) {declaration test increment : Node}
    (hdeclaration : declaration = declare c.counter (number (.int c.first)))
    (htest : test = binary .lt (var c.counter) (number (.int c.bound)) type)
    (hincrement : increment =
      assign c.counter (binary .add (var c.counter) (number (.int c.delta)) type')) :
    unroll declaration test increment body =
      forLoop declaration test increment
        (if c.rounds ≤ unrollLimit then roundsOf c body else body)
        (decide (c.rounds ≤ unrollLimit)) := by
  have hrepeatable : repeatable c.counter body = true := by
    simp [repeatable, hleaves, hassigns, hdeclares]
  have hcount : count? declaration test increment = some c := by
    simp [hdeclaration, htest, hincrement, count?, hdelta]
  rw [unroll, hcount]
  by_cases hfew : c.rounds ≤ unrollLimit <;> simp [hrepeatable, hfew]

end Node

/-- A loop with a header that counts up and a body that can be repeated is unrolled if
and only if its counter meets at most 64 values before the test fails.  Then its body
assigns these values to the counter, one after another, and behind each of them stands
the optimized body; that body goes through a pass of its own unchanged. -/
theorem unrolled_rounds_count {declaration test increment : Node} {body : List Node}
    {v : Variable} {first bound delta : Int} {type type' : Ty}
    (hobstacle : (Node.forLoop declaration test increment body false).obstacle? = none)
    (hdeclaration : declaration.optimize = .declare v (.number (.int first)))
    (htest : test.optimize = .binary .lt (.var v) (.number (.int bound)) type)
    (hincrement : increment.optimizeIncrement =
      .assign v (.binary .add (.var v) (.number (.int delta)) type'))
    (hdelta : 0 < delta) (hleaves : Node.anyBreaksOut (Node.optimizeStmts body) = false)
    (hassigns : Node.anyAssigns v (Node.optimizeStmts body) = false)
    (hdeclares : Node.anyDeclares (Node.optimizeStmts body) = false) :
    ∃ values rounds unrolled, Node.Counts bound delta first values ∧
      optimize (.forLoop declaration test increment body false) =
        .ok (.forLoop declaration.optimize test.optimize increment.optimizeIncrement rounds
          unrolled) ∧
      (unrolled = true ↔ values.length ≤ 64) ∧
      (unrolled = true →
        Node.assignedIn v rounds = values.map (fun x => .number (.int x)) ∧
        rounds = values.flatMap
          (fun x => .assign v (.number (.int x)) :: Node.optimizeStmts body)) ∧
      (unrolled = false → rounds = Node.optimizeStmts body) ∧
      ∀ n ∈ Node.optimizeStmts body, optimize n = .ok n := by
  let c : Node.Count := ⟨v, first, bound, delta⟩
  have hbody : Node.anyObstacle? body = none := by
    simp only [Node.obstacle?, Bool.false_eq_true, if_false, Option.or_eq_none_iff] at hobstacle
    exact hobstacle.2.2.2.1
  have hunroll := Node.unroll_of_count c type type' hdelta hleaves hassigns hdeclares hdeclaration
    htest hincrement
  have hresult : optimize (.forLoop declaration test increment body false) =
      .ok (.unroll declaration.optimize test.optimize increment.optimizeIncrement
        (Node.optimizeStmts body)) := by
    rw [optimize, hobstacle, Node.optimize_forLoop]
  rw [hunroll] at hresult
  refine ⟨c.values, _, _, c.counts_values hdelta, hresult, ?_, ?_, ?_,
    fun n hn => optimize_of_mem_optimizeStmts hbody hn⟩
  · rw [c.length_values]
    exact decide_eq_true_iff
  · intro hfew
    rw [if_pos (of_decide_eq_true hfew), Node.roundsOf_eq_flatMap]
    exact ⟨Node.assignedIn_rounds hassigns _, rfl⟩
  · intro hmany
    exact if_neg (of_decide_eq_false hmany)

/-- The header of a loop from below zero, in steps that miss its bound, with something
to fold. -/
def steppingLoop (i : Variable) (body : List Node) : Node :=
  .forLoop (.declare i (.unary .sub (.number (.int 3)) .int))
    (.binary .lt (.var i) (.number (.int 5)) .boolean)
    (.assign i (.binary .add (.var i) (.number (.int 4)) .int)) body false

theorem steppingLoop_unrolls : ∃ i n : Variable,
    Node.Counts 5 4 (-3) [-3, 1] ∧
    optimize (steppingLoop i [.assign n (.var n), .print (.var i)]) =
      .ok (.forLoop (.declare i (.number (.int (-3))))
        (.binary .lt (.var i) (.number (.int 5)) .boolean)
        (.assign i (.binary .add (.var i) (.number (.int 4)) .int))
        [.assign i (.number (.int (-3))), .print (.var i),
          .assign i (.number (.int 1)), .print (.var i)] true) := by
  let i : Variable := ⟨0, "i", .int⟩
  let n : Variable := ⟨1, "n", .int⟩
  let body : List Node := [.assign n (.var n), .print (.var i)]
  have hobstacle : (steppingLoop i body).obstacle? = none := rfl
  have hdeclaration : (Node.declare i (.unary .sub (.number (.int 3)) .int)).optimize =
      .declare i (.number (.int (-3))) := rfl
  have htest : (Node.binary .lt (.var i) (.number (.int 5)) .boolean).optimize =
      .binary .lt (.var i) (.number (.int 5)) .boolean := rfl
  obtain ⟨values, rounds, unrolled, hcounts, hresult, hlimit, hunrolled, -⟩ :=
    unrolled_rounds_count hobstacle hdeclaration htest rfl (by decide) rfl rfl rfl
  have hvalues : values = [-3, 1] := by
    rcases hcounts with hend | ⟨-, hend | ⟨-, hend | ⟨hnext, -⟩⟩⟩
    · exact absurd (by decide) hend
    · exact absurd (by decide) hend
    · rfl
    · exact absurd hnext (by decide)
  subst hvalues
  have htrue : unrolled = true := hlimit.mpr (by decide)
  subst htrue
  obtain ⟨-, rfl⟩ := hunrolled rfl
  exact ⟨i, n, hcounts, hresult⟩

end Squishc
