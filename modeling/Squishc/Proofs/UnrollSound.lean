import Mathlib.Tactic.SplitIfs
import Squishc.Proofs.LoopCounters

/-!
# Unrolling keeps runs

A loop that counts up is replaced by its rounds.  The three guards carry the
argument: a round that cannot leave the loop runs through, and a round that
neither assigns nor declares the counter leaves it alone.  So every round of the
loop begins in the store in which the same round of the flat body begins; only
behind the last round does the counter differ.

Main results:

- Theorem `Run.runs_through`: what cannot leave a loop runs through.
- Theorem `Run.keeps`: what neither assigns nor declares a variable keeps it.
- Theorem `Run.roundsFrom`: the rounds of a loop run one after another without it.
- Theorem `Run.unroll`: a run of a loop is followed by a run of its flat body.
-/

namespace Squishc

open Node

/-- A node that has the names and the statements of a task. -/
def Task.node : Task → Node
  | stmt n => n
  | stmts nodes => .shortIf .null nodes
  | rounds test target source body => .whileLoop test (.assign target source :: body)
  | items iterator _ body => .forEach iterator .null body

/-! ## Leaving loops -/

theorem Node.breaksOut_ifElse (test : Node) (consequence : List Node) (alternate : Node) :
    (ifElse test consequence alternate).breaksOut =
      (anyBreaksOut consequence || anyBreaksOut alternate.spread) := by
  cases alternate <;> simp [breaksOut, spread, anyBreaksOut]

theorem Node.assigns_ifElse (v : Variable) (test : Node) (consequence : List Node)
    (alternate : Node) :
    (ifElse test consequence alternate).assigns v =
      (anyAssigns v consequence || anyAssigns v alternate.spread) := by
  cases alternate <;> simp [assigns, spread, anyAssigns]

namespace Run

variable {task : Task} {σ τ ρ : Store} {s : Ending} {o o' : List Value}

/-- What cannot leave the loop around it runs through. -/
theorem runs_through (h : Run task σ s τ o) (hbreak : task.node.breaksOut = false) :
    s = .through := by
  induction h with
  | print | declare | assign | shortIfFalse | whileFalse | whileBreak | unrolled | nil
  | roundsEnd | roundsBreak | itemsEnd | itemsBreak => rfl
  | exit => cases hbreak
  | shortIfTrue _ _ ih => exact ih (by simpa [Task.node, breaksOut] using hbreak)
  | ifTrue _ _ ih =>
    simp only [Task.node, breaksOut_ifElse, Bool.or_eq_false_iff] at hbreak
    exact ih (by simpa [Task.node, breaksOut] using hbreak.1)
  | ifFalse _ _ ih =>
    simp only [Task.node, breaksOut_ifElse, Bool.or_eq_false_iff] at hbreak
    exact ih (by simpa [Task.node, breaksOut] using hbreak.2)
  | whileTrue _ _ _ _ ih | forLoop _ _ ih | forEach _ _ _ ih | roundsNext _ _ _ _ _ ih
  | itemsNext _ _ _ ih => exact ih rfl
  | cons _ _ _ ih =>
    simp only [Task.node, breaksOut, anyBreaksOut, Bool.or_eq_false_iff] at hbreak
    exact ih (by simpa [Task.node, breaksOut] using hbreak.2)
  | consBreak _ ih =>
    simp only [Task.node, breaksOut, anyBreaksOut, Bool.or_eq_false_iff] at hbreak
    exact ih hbreak.1

/-! ## Variables that a run leaves alone -/

/-- What neither assigns nor declares a variable leaves it as it was. -/
theorem keeps {v : Variable} (h : Run task σ s τ o) (hassign : task.node.assigns v = false)
    (hdeclare : Entity.var v ∉ task.node.declared) : τ v = σ v := by
  induction h with
  | print | shortIfFalse | whileFalse | nil | roundsEnd | itemsEnd | exit => rfl
  | declare =>
    refine Store.set_of_ne _ _ ?_
    rintro rfl
    simp [Task.node, declared] at hdeclare
  | assign =>
    refine Store.set_of_ne _ _ ?_
    rintro rfl
    simp [Task.node, assigns] at hassign
  | shortIfTrue _ _ ih =>
    simp only [Task.node, assigns, declared, List.mem_append, not_or] at hassign hdeclare ih
    exact ih hassign ⟨List.not_mem_nil, hdeclare.2⟩
  | ifTrue _ _ ih =>
    simp only [Task.node, assigns_ifElse, Bool.or_eq_false_iff, assigns, declared,
      List.mem_append, not_or] at hassign hdeclare ih
    exact ih hassign.1 ⟨List.not_mem_nil, hdeclare.2.1⟩
  | ifFalse _ _ ih =>
    simp only [Task.node, assigns_ifElse, Bool.or_eq_false_iff, assigns, declared,
      List.mem_append, not_or, declaredIn_spread] at hassign hdeclare ih
    exact ih hassign.2 ⟨List.not_mem_nil, hdeclare.2.2⟩
  | whileTrue _ _ _ ih ihloop =>
    rw [ihloop hassign hdeclare]
    simp only [Task.node, assigns, declared, List.mem_append, not_or] at hassign hdeclare ih
    exact ih hassign ⟨List.not_mem_nil, hdeclare.2⟩
  | whileBreak _ _ ih =>
    simp only [Task.node, assigns, declared, List.mem_append, not_or] at hassign hdeclare ih
    exact ih hassign ⟨List.not_mem_nil, hdeclare.2⟩
  | @forLoop σ w e x t u f b s τ o _ _ ih =>
    simp only [Task.node, assigns, anyAssigns, declared, declaredIn, List.mem_append,
      List.mem_singleton, Entity.var.injEq, not_or] at hassign hdeclare ih
    rw [ih hassign ⟨hdeclare.2.1, hdeclare.2.2⟩]
    exact Store.set_of_ne _ _ hdeclare.1.2
  | unrolled _ _ ih =>
    simp only [Task.node, assigns, Bool.or_eq_false_iff, declared, List.mem_append,
      List.mem_singleton, Entity.var.injEq, not_or] at hassign hdeclare ih
    rw [ih hassign.2 ⟨List.not_mem_nil, hdeclare.2.2.2⟩]
    exact Store.set_of_ne _ _ hdeclare.1.2
  | forEach _ _ _ ih =>
    simp only [Task.node, assigns, declared, List.mem_append, List.mem_cons,
      not_or] at hassign hdeclare ih
    exact ih hassign ⟨List.not_mem_nil, hdeclare.2⟩
  | cons _ _ ih ihrest =>
    simp only [Task.node, assigns, anyAssigns, Bool.or_eq_false_iff, declared, declaredIn,
      List.mem_append, not_or] at hassign hdeclare ih ihrest
    rw [ihrest hassign.2 ⟨List.not_mem_nil, hdeclare.2.2⟩]
    exact ih hassign.1 hdeclare.2.1
  | consBreak _ ih =>
    simp only [Task.node, assigns, anyAssigns, Bool.or_eq_false_iff, declared, declaredIn,
      List.mem_append, not_or] at hassign hdeclare ih
    exact ih hassign.1 hdeclare.2.1
  | roundsNext _ _ _ _ ih ihloop =>
    rw [ihloop hassign hdeclare]
    simp only [Task.node, assigns, anyAssigns, Bool.or_eq_false_iff, declared, declaredIn,
      List.mem_append, not_or, decide_eq_false_iff_not] at hassign hdeclare ih
    rw [Store.set_of_ne _ _ (Ne.symm hassign.1)]
    exact ih hassign.2 ⟨List.not_mem_nil, hdeclare.2.2⟩
  | roundsBreak _ _ ih =>
    simp only [Task.node, assigns, anyAssigns, Bool.or_eq_false_iff, declared, declaredIn,
      List.mem_append, not_or] at hassign hdeclare ih
    exact ih hassign.2 ⟨List.not_mem_nil, hdeclare.2.2⟩
  | itemsNext _ _ ih ihloop =>
    rw [ihloop hassign hdeclare]
    simp only [Task.node, assigns, declared, List.mem_append, List.mem_cons,
      Entity.var.injEq, not_or] at hassign hdeclare ih
    rw [ih hassign ⟨List.not_mem_nil, hdeclare.2.2⟩]
    exact Store.set_of_ne _ _ hdeclare.2.1
  | itemsBreak _ ih =>
    simp only [Task.node, assigns, declared, List.mem_append, List.mem_cons,
      Entity.var.injEq, not_or] at hassign hdeclare ih
    rw [ih hassign ⟨List.not_mem_nil, hdeclare.2.2⟩]
    exact Store.set_of_ne _ _ hdeclare.2.1

/-! ## Statements one after another -/

/-- Statements that run through are followed by the statements behind them. -/
theorem append {xs ys : List Node} (hx : Run (.stmts xs) σ .through ρ o)
    (hy : Run (.stmts ys) ρ s τ o') : Run (.stmts (xs ++ ys)) σ s τ (o ++ o') := by
  induction xs generalizing σ o with
  | nil =>
    cases hx
    exact hy
  | cons n rest ih =>
    cases hx with
    | cons hn hrest =>
      rw [List.append_assoc]
      exact .cons hn (ih hrest)

/-- Statements that leave the loop leave out the statements behind them. -/
theorem append_broken {xs : List Node} (hx : Run (.stmts xs) σ .broken τ o) (ys : List Node) :
    Run (.stmts (xs ++ ys)) σ .broken τ o := by
  induction xs generalizing σ o with
  | nil => cases hx
  | cons n rest ih =>
    cases hx with
    | cons hn hrest => exact .cons hn (ih hrest)
    | consBreak hn => exact .consBreak hn

/-- A single statement as a list. -/
theorem singleton {n : Node} (h : Run (.stmt n) σ s τ o) : Run (.stmts [n]) σ s τ o := by
  cases s with
  | through =>
    rw [← List.append_nil o]
    exact .cons h .nil
  | broken => exact .consBreak h

/-- The only statement of a list. -/
theorem of_singleton {n : Node} (h : Run (.stmts [n]) σ s τ o) : Run (.stmt n) σ s τ o := by
  cases h with
  | cons hn hnil =>
    cases hnil
    rwa [List.append_nil]
  | consBreak hn => exact hn

end Run

/-! ## Counting -/

namespace Node.Count

/-- A count has another round exactly as long as it is below its bound. -/
theorem lt_rounds_iff (c : Count) (hdelta : 0 < c.delta) (i : Nat) :
    i < c.rounds ↔ c.value i < c.bound := by
  have hquotient : (c.first - c.bound) / c.delta < -(i : Int) ↔
      c.first - c.bound < -(i : Int) * c.delta := Int.ediv_lt_iff_lt_mul hdelta
  rw [Int.neg_mul] at hquotient
  unfold rounds value
  omega

theorem value_succ (c : Count) (i : Nat) : c.value (i + 1) = c.value i + c.delta := by
  unfold value
  rw [Int.natCast_add, Int.add_mul, Int.natCast_one, Int.one_mul, Int.add_assoc]

end Node.Count

/-! ## Rounds -/

variable {σ τ ρ : Store} {s : Ending} {o : List Value}

/-- The test of a counting loop. -/
theorem Node.eval_below {v : Variable} {k : Int} (bound : Int) (type : Ty)
    (hv : σ v = some (.int k)) :
    (binary .lt (var v) (number (.int bound)) type).eval σ = some (.bool (decide (k < bound))) := by
  have hless : (compare k bound == Ordering.lt) = decide (k < bound) := by
    rw [Bool.eq_iff_iff, beq_iff_eq, decide_eq_true_iff, Std.compare_eq_lt]
  rw [eval_binary_eq_some]
  refine ⟨.int k, hv, .inr ⟨rfl, .int bound, rfl, ?_⟩⟩
  rw [← hless]
  rfl

/-- The step of a counting loop. -/
theorem Node.eval_step {v : Variable} {k delta : Int} (type : Ty) (hv : σ v = some (.int k)) :
    (binary .add (var v) (number (.int delta)) type).eval σ = some (.int (k + delta)) := by
  rw [eval_binary_eq_some]
  exact ⟨.int k, hv, .inr ⟨rfl, .int delta, rfl, rfl⟩⟩

/-- The rounds of a count from the given one on. -/
def Node.roundsFrom (c : Count) (body : List Node) (first count : Nat) : List Node :=
  (List.range' first count).flatMap
    (fun round => assign c.counter (number (.int (c.value round))) :: body)

/-- The remaining rounds of a loop run one after another without it.  Before each of
them the stores may differ in the counter, which the round sets. -/
theorem Run.roundsFrom {c : Count} {body : List Node} {type type' : Ty} {count : Nat}
    (first : Nat) (hdelta : 0 < c.delta) (hbreak : anyBreaksOut body = false)
    (hassign : anyAssigns c.counter body = false)
    (hdeclare : Entity.var c.counter ∉ declaredIn body)
    (hcount : count = c.rounds - first) (hσ : ∀ w, w ≠ c.counter → σ w = ρ w)
    (hcounter : σ c.counter = some (.int (c.value first)))
    (h : Run (.rounds (binary .lt (var c.counter) (number (.int c.bound)) type) c.counter
      (binary .add (var c.counter) (number (.int c.delta)) type') body) σ s τ o) :
    s = .through ∧ ∃ υ, Run (.stmts (Node.roundsFrom c body first count)) ρ .through υ o ∧
      ∀ w, w ≠ c.counter → τ w = υ w := by
  have htest := Node.eval_below c.bound type hcounter
  induction count generalizing first σ ρ o with
  | zero =>
    -- No round is left, so the test fails and the loop ends at once.
    have hend : ¬ c.value first < c.bound := by
      rw [← c.lt_rounds_iff hdelta]
      omega
    rw [decide_eq_false hend] at htest
    cases h with
    | roundsEnd => exact ⟨rfl, ρ, .nil, hσ⟩
    | roundsNext htrue => simp [htest] at htrue
    | roundsBreak htrue => simp [htest] at htrue
  | succ count ih =>
    have hnext : c.value first < c.bound := by
      rw [← c.lt_rounds_iff hdelta]
      omega
    rw [decide_eq_true hnext] at htest
    cases h with
    | roundsEnd hfalse => simp [htest] at hfalse
    | roundsBreak _ hbody =>
      have hthrough := hbody.runs_through (by simpa [Task.node, breaksOut] using hbreak)
      cases hthrough
    | @roundsNext _ _ _ _ _ θ x _ _ o₁ o₂ _ hbody hstep hrest =>
      have hkept : θ c.counter = some (.int (c.value first)) := by
        rw [← hcounter]
        exact hbody.keeps (by simpa [Task.node, assigns] using hassign)
          (by simpa [Task.node, declared] using hdeclare)
      rw [Node.eval_step type' hkept, ← c.value_succ] at hstep
      cases hstep
      obtain ⟨hs, υ, hυ, hτ⟩ := ih (first + 1) (by omega)
        (fun w hw => Store.set_of_ne θ _ hw) (Store.set_self ..) hrest
        (Node.eval_below c.bound type (Store.set_self ..))
      refine ⟨hs, υ, ?_, hτ⟩
      -- Setting the counter makes the two stores the same.
      have hsame : ρ.set c.counter (.int (c.value first)) = σ := by
        funext w
        by_cases hw : w = c.counter
        · rw [hw, Store.set_self, hcounter]
        · rw [Store.set_of_ne ρ _ hw, hσ w hw]
      rw [Node.roundsFrom, List.range'_succ, List.flatMap_cons, List.cons_append]
      refine .cons (o := []) (.assign rfl) ?_
      rw [hsame]
      exact hbody.append hυ

/-- A header that counts is made of three parts around one counter. -/
theorem Node.count?_eq_some {declaration test increment : Node} {c : Count}
    (h : count? declaration test increment = some c) :
    0 < c.delta ∧ declaration = declare c.counter (number (.int c.first)) ∧
      (∃ type, test = binary .lt (var c.counter) (number (.int c.bound)) type) ∧
      ∃ type, increment =
        assign c.counter (binary .add (var c.counter) (number (.int c.delta)) type) := by
  unfold count? at h
  split at h
  · split_ifs at h with hsame
    cases h
    simp only [Bool.and_eq_true, decide_eq_true_eq] at hsame
    obtain ⟨⟨⟨rfl, rfl⟩, rfl⟩, hdelta⟩ := hsame
    exact ⟨hdelta, rfl, ⟨_, rfl⟩, ⟨_, rfl⟩⟩
  · cases h

/-- A loop with a header that may be unrolled.  Either it stays and ends in the same
store, or its counter begins with a known integer and may end with another
value. -/
theorem Run.unroll {v w : Variable} {e t f : Node} {b : List Node} {x : Value}
    (hdeclare : Entity.var v ∉ declaredIn b) (he : e.eval σ = some x)
    (h : Run (.rounds t w f b) (σ.set v x) s τ o) :
    ∃ υ, Run (.stmt (Node.unroll (.declare v e) t (.assign w f) b)) σ s υ o ∧
      (τ = υ ∨ (∃ k, e = number (.int k)) ∧ ∀ u, u ≠ v → τ u = υ u) := by
  have hrolled : Run (.stmt (.forLoop (.declare v e) t (.assign w f) b false)) σ s τ o :=
    .forLoop he h
  unfold Node.unroll
  split
  · next c hc =>
    split_ifs with hguard
    · obtain ⟨hdelta, hd, ⟨type, rfl⟩, ⟨type', hi⟩⟩ := count?_eq_some hc
      cases hd
      cases hi
      cases he
      simp only [repeatable, Bool.and_eq_true, Bool.not_eq_true', Bool.or_eq_false_iff] at hguard
      obtain ⟨⟨⟨hbreak, hassign⟩, -⟩, -⟩ := hguard
      have hfirst : c.value 0 = c.first := by simp [Count.value]
      have hsame : ∀ u, u ≠ c.counter →
          σ.set c.counter (.int c.first) u = σ.set c.counter (.int c.first) u := fun _ _ => rfl
      obtain ⟨rfl, υ, hυ, hτ⟩ := h.roundsFrom 0 hdelta hbreak hassign hdeclare rfl hsame
        (by rw [hfirst, Store.set_self])
      refine ⟨υ, .unrolled rfl ?_, .inr ⟨⟨_, rfl⟩, hτ⟩⟩
      simpa [Node.roundsFrom, roundsOf, List.range_eq_range'] using hυ
    · exact ⟨τ, hrolled, .inl rfl⟩
  · exact ⟨τ, hrolled, .inl rfl⟩

end Squishc
