import Squishc.Compile
import Squishc.Proofs.UnrollSound

/-!
# Optimizing keeps the output

A run of a program is followed by a run of the optimized program that prints the
same values.  The two stores may differ in the counters of loops that could be
unrolled, which are set before they are read again and which nothing outside
their loop mentions.

Main results:

- Theorem `Run.optimized`: a run of a task is followed by a run of the optimized
  task in a store that agrees on all but the hidden counters.
- Theorem `formed_of_plainStmt`: plain statements are well formed.
-/

namespace Squishc

open Node

variable {D : Variable → Prop} {σ τ σ' : Store}

/-! ## Agreement of stores -/

/-- Two stores agree on all variables that are not hidden. -/
def Store.Agree (D : Variable → Prop) (σ τ : Store) : Prop := ∀ v, ¬ D v → σ v = τ v

namespace Store.Agree

/-- Stores that agree still do so when a variable is set in both. -/
theorem set (h : Agree D σ τ) (v : Variable) (x : Value) :
    Agree D (σ.set v x) (τ.set v x) := by
  intro w hw
  by_cases hwv : w = v
  · subst hwv
    rw [Store.set_self, Store.set_self]
  · rw [Store.set_of_ne σ x hwv, Store.set_of_ne τ x hwv, h w hw]

/-- A hidden variable that is set in both stores need not be hidden any more. -/
theorem set_shown (h : Agree D σ τ) (v : Variable) (x : Value) :
    Agree (fun w => D w ∧ w ≠ v) (σ.set v x) (τ.set v x) := by
  intro w hw
  by_cases hwv : w = v
  · subst hwv
    rw [Store.set_self, Store.set_self]
  · rw [Store.set_of_ne σ x hwv, Store.set_of_ne τ x hwv]
    exact h w (fun hd => hw ⟨hd, hwv⟩)

/-- An expression that mentions no hidden variable has the same value, also when it
is optimized. -/
theorem eval_optimize {e : Node} {x : Value} (h : Agree D σ τ) (haway : ∀ v, D v → v ∉ e.free)
    (he : e.eval σ = some x) : e.optimize.eval τ = some x := by
  refine Node.eval_optimize ?_
  rw [← eval_congr e (fun v hv => h v (fun hd => haway v hd hv))]
  exact he

end Store.Agree

/-! ## Hidden counters -/

/-- The given variables are hidden in a tree.  They are mentioned only in the loops
that count with them, and they are exactly the counters that begin with a known
integer. -/
structure Node.Hidden (D : Variable → Prop) (n : Node) : Prop where
  rolled : n.rolled = true
  distinct : n.declared.Nodup
  away : ∀ v, D v → v ∉ n.free
  counted : ∀ h ∈ n.headers, D h.1 ↔ ∃ k, h.2.optimize = number (.int k)

namespace Node.Hidden

/-- What is hidden in a tree is hidden in its parts. -/
theorem part {m n : Node} (h : n.Hidden D) (hrolled : n.rolled = true → m.rolled = true)
    (hdeclared : List.Sublist m.declared n.declared) (hfree : m.free ⊆ n.free)
    (hheaders : m.headers ⊆ n.headers) : m.Hidden D where
  rolled := hrolled h.rolled
  distinct := hdeclared.nodup h.distinct
  away v hv hm := h.away v hv (hfree hm)
  counted k hk := h.counted k (hheaders hk)

variable {v w : Variable} {t e f n a : Node} {b c rest : List Node}

theorem consequence (h : (shortIf t c).Hidden D) : (shortIf null c).Hidden D :=
  h.part (by simp [Node.rolled]) (by simp [declared]) (by simp [free]) (by simp [headers])

theorem ifConsequence (h : (ifElse t c a).Hidden D) : (shortIf null c).Hidden D :=
  h.part (by simp +contextual [Node.rolled]) (by simp [declared]) (by simp [free])
    (by simp [headers])

theorem ifAlternate (h : (ifElse t c a).Hidden D) : (shortIf null a.spread).Hidden D :=
  h.part (by simp [Node.rolled]) (by simp [declared]) (by simp [free]) (by simp [headers])

theorem whileBody (h : (whileLoop t b).Hidden D) : (shortIf null b).Hidden D :=
  h.part (by simp [Node.rolled]) (by simp [declared]) (by simp [free]) (by simp [headers])

theorem eachBody (h : (forEach v e b).Hidden D) : (shortIf null b).Hidden D :=
  h.part (by simp [Node.rolled]) (by simp [declared]) (by simp [free]) (by simp [headers])

theorem eachItems (h : (forEach v e b).Hidden D) : (forEach v null b).Hidden D :=
  h.part (by simp [Node.rolled]) (by simp [declared]) (by simp [free]) (by simp [headers])

theorem head (h : (shortIf null (n :: rest)).Hidden D) : n.Hidden D :=
  h.part (by simp +contextual [Node.rolled, allRolled]) (by simp [declared, declaredIn])
    (by simp [free, freeIn]) (by simp [headers, headersIn])

theorem tail (h : (shortIf null (n :: rest)).Hidden D) : (shortIf null rest).Hidden D :=
  h.part (by simp [Node.rolled, allRolled]) (by simp [declared, declaredIn])
    (by simp [free, freeIn]) (by simp [headers, headersIn])

theorem loopBody (h : (whileLoop t (assign w f :: b)).Hidden D) : (shortIf null b).Hidden D :=
  h.whileBody.tail

/-- The body of a loop does not declare its counter once more. -/
theorem counter_notMem (h : (forLoop (declare v e) t a b false).Hidden D) :
    Entity.var v ∉ declaredIn b := by
  intro hmem
  have hdistinct := h.distinct
  rw [declared, List.nodup_append] at hdistinct
  refine hdistinct.2.2 (.var v) ?_ (.var v) ?_ rfl
  · simp [declared]
  · simp [hmem]

/-- Inside a loop with a header its counter is hidden no more. -/
theorem rounds (h : (forLoop (declare v e) t (assign w f) b false).Hidden D) :
    (whileLoop t (assign w f :: b)).Hidden (fun u => D u ∧ u ≠ v) where
  rolled := by
    have hrolled := h.rolled
    simpa [Node.rolled, allRolled] using hrolled
  distinct := by
    have hdistinct := h.distinct
    simp only [declared, declaredIn] at hdistinct ⊢
    exact (List.sublist_append_right ..).nodup hdistinct
  away u hu hmem := by
    refine h.away u hu.1 ?_
    simp only [free, freeIn, header?, Option.map_some, List.mem_filter, List.mem_append,
      List.mem_cons] at hmem ⊢
    refine ⟨.inr hmem, ?_⟩
    simpa using Ne.symm hu.2
  counted k hk := by
    have hbody : k ∈ headersIn b := by simpa [headers, headersIn] using hk
    have hne : k.1 ≠ v := by
      rintro rfl
      exact h.counter_notMem ((headersIn_sublist b).subset (List.mem_map_of_mem hbody))
    rw [← h.counted k (by simp [headers, hbody])]
    exact and_iff_left hne

/-- An expression of a tree has the same value in both stores, also when it is
optimized. -/
theorem eval {x : Value} (h : n.Hidden D) (hagree : Store.Agree D σ τ) (hfree : e.free ⊆ n.free)
    (he : e.eval σ = some x) : e.optimize.eval τ = some x :=
  hagree.eval_optimize (fun v hv hmem => h.away v hv (hfree hmem)) he

/-- The first value of a counter is the same in both stores. -/
theorem eval_first {x : Value} (h : (forLoop (declare v e) t a b false).Hidden D)
    (hagree : Store.Agree D σ τ) (he : e.eval σ = some x) : e.optimize.eval τ = some x := by
  by_cases hv : D v
  · obtain ⟨k, hk⟩ := (h.counted (v, e) (by simp [headers, header?])).1 hv
    have hx := Node.eval_optimize he
    rw [hk] at hx ⊢
    exact hx
  · refine hagree.eval_optimize (fun u hu hmem => ?_) he
    refine h.away u hu ?_
    have hne : v ≠ u := by
      rintro rfl
      exact hv hu
    simp [free, header?, hmem, hne]

end Node.Hidden

/-! ## Statements that vanish -/

theorem Node.eq_var_of_isVariable {v : Variable} {n : Node} (h : n.isVariable v = true) :
    n = var v := by
  cases n <;> simp_all [isVariable]

theorem Node.isFalse_of_eval_true {n : Node} (h : n.eval σ = some (.bool true)) :
    n.isFalse = false := by
  unfold isFalse
  split
  · cases h
  · rfl

theorem Node.eq_empty_of_isEmptyString {n : Node} (h : n.isEmptyString = true) :
    ∃ type, n = string "" type := by
  cases n <;> simp_all [isEmptyString]

theorem Node.spread_unroll (declaration test increment : Node) (body : List Node) :
    (unroll declaration test increment body).spread =
      [unroll declaration test increment body] := by
  unfold unroll
  split
  · split_ifs <;> rfl
  · rfl

/-! ## Simulation -/

/-- The optimized form of a task. -/
def Task.optimized : Task → Task
  | stmt n => stmts n.optimize.spread
  | stmts nodes => stmts (optimizeStmts nodes)
  | rounds test target source body =>
    rounds test.optimize target source.optimize (optimizeStmts body)
  | items iterator values body => items iterator values (optimizeStmts body)

/-- A run of a task is followed by a run of the optimized task.  The induction is on
the run; a loop with a header is the only place where the hidden variables change. -/
theorem Run.optimized {task : Task} {s : Ending} {o : List Value} (h : Run task σ s τ o) :
    ∀ {D : Variable → Prop} {σ' : Store}, task.node.Hidden D → Store.Agree D σ σ' →
      ∃ τ', Run task.optimized σ' s τ' o ∧ Store.Agree D τ τ' := by
  induction h with
  | print he =>
    intro D σ' hidden hagree
    have hx := hidden.eval hagree (by simp [Task.node, free]) he
    exact ⟨σ', .singleton (.print hx), hagree⟩
  | @declare _ v _ x he =>
    intro D σ' hidden hagree
    have hx := hidden.eval hagree (by simp [Task.node, free]) he
    exact ⟨_, .singleton (.declare hx), hagree.set v x⟩
  | @assign σ v e x he =>
    intro D σ' hidden hagree
    have hx := hidden.eval hagree (by simp [Task.node, free]) he
    simp only [Task.optimized, optimize_assign, reduceAssign]
    split_ifs with hself
    · -- The variable already holds the value, so leaving the assignment out changes nothing.
      rw [eq_var_of_isVariable hself] at hx
      refine ⟨σ', .nil, fun w hw => ?_⟩
      by_cases hwv : w = v
      · rw [hwv, Store.set_self]
        exact hx.symm
      · rw [Store.set_of_ne σ x hwv, hagree w hw]
    · exact ⟨_, .singleton (.assign hx), hagree.set v x⟩
  | exit =>
    intro D σ' hidden hagree
    exact ⟨σ', .singleton .exit, hagree⟩
  | shortIfTrue ht _ ih =>
    intro D σ' hidden hagree
    have htest := hidden.eval hagree (by simp [Task.node, free]) ht
    obtain ⟨τ', hrun, hτ⟩ := ih hidden.consequence hagree
    exact ⟨τ', .singleton (.shortIfTrue htest hrun), hτ⟩
  | shortIfFalse ht =>
    intro D σ' hidden hagree
    have htest := hidden.eval hagree (by simp [Task.node, free]) ht
    exact ⟨σ', .singleton (.shortIfFalse htest), hagree⟩
  | ifTrue ht _ ih =>
    intro D σ' hidden hagree
    have htest := hidden.eval hagree (by simp [Task.node, free]) ht
    obtain ⟨τ', hrun, hτ⟩ := ih hidden.ifConsequence hagree
    exact ⟨τ', .singleton (.ifTrue htest hrun), hτ⟩
  | ifFalse ht _ ih =>
    intro D σ' hidden hagree
    have htest := hidden.eval hagree (by simp [Task.node, free]) ht
    obtain ⟨τ', hrun, hτ⟩ := ih hidden.ifAlternate hagree
    rw [Task.optimized, optimizeStmts_spread] at hrun
    exact ⟨τ', .singleton (.ifFalse htest hrun), hτ⟩
  | @whileFalse σ t b ht =>
    intro D σ' hidden hagree
    have htest := hidden.eval hagree (by simp [Task.node, free]) ht
    simp only [Task.optimized, optimize_whileLoop, reduceWhile]
    split_ifs
    · exact ⟨σ', .nil, hagree⟩
    · exact ⟨σ', .singleton (.whileFalse htest), hagree⟩
  | @whileTrue σ t b ρ τ s o o' ht _ _ ihbody ihloop =>
    intro D σ' hidden hagree
    have htest := hidden.eval hagree (by simp [Task.node, free]) ht
    obtain ⟨ρ', hbody, hρ⟩ := ihbody hidden.whileBody hagree
    obtain ⟨τ', hloop, hτ⟩ := ihloop hidden hρ
    have hstays : t.optimize.isFalse = false := isFalse_of_eval_true htest
    simp only [Task.optimized, optimize_whileLoop, reduceWhile, hstays] at hloop ⊢
    exact ⟨τ', .singleton (.whileTrue htest hbody hloop.of_singleton), hτ⟩
  | @whileBreak σ t b τ o ht _ ih =>
    intro D σ' hidden hagree
    have htest := hidden.eval hagree (by simp [Task.node, free]) ht
    obtain ⟨τ', hbody, hτ⟩ := ih hidden.whileBody hagree
    have hstays : t.optimize.isFalse = false := isFalse_of_eval_true htest
    simp only [Task.optimized, optimize_whileLoop, reduceWhile, hstays]
    exact ⟨τ', .singleton (.whileBreak htest hbody), hτ⟩
  | @forLoop σ v e x t w f b s τ o he _ ih =>
    intro D σ' hidden hagree
    have hfirst := hidden.eval_first hagree he
    obtain ⟨ρ', hrounds, hρ⟩ := ih hidden.rounds (hagree.set_shown v x)
    obtain ⟨τ', hloop, hend⟩ := Run.unroll
      (fun hmem => hidden.counter_notMem (declaredIn_optimizeStmts b hmem)) hfirst hrounds
    refine ⟨τ', ?_, fun u hu => ?_⟩
    · rw [Task.optimized, optimize_forLoop, optimizeIncrement_assign, optimize_declare,
        spread_unroll]
      exact .singleton hloop
    · rw [hρ u (fun hd => hu hd.1)]
      rcases hend with rfl | ⟨hknown, hsame⟩
      · rfl
      · refine hsame u ?_
        rintro rfl
        exact hu ((hidden.counted (u, e) (by simp [Task.node, headers, header?])).2 hknown)
  | unrolled _ _ _ =>
    intro D σ' hidden hagree
    have hrolled := hidden.rolled
    simp [Task.node, rolled] at hrolled
  | @forEach σ v e x xs b s τ o he hxs _ ih =>
    intro D σ' hidden hagree
    have hx := hidden.eval hagree (by simp [Task.node, free]) he
    obtain ⟨τ', hitems, hτ⟩ := ih hidden.eachItems hagree
    simp only [Task.optimized, optimize_forEach, reduceForEach]
    split_ifs with hempty
    · -- There are no items, so the loop does nothing.
      obtain ⟨type, hstring⟩ := eq_empty_of_isEmptyString hempty
      rw [hstring] at hx
      cases hx
      obtain rfl : xs = [] := by simpa [Value.items?] using hxs.symm
      cases hitems
      exact ⟨σ', .nil, hτ⟩
    · exact ⟨τ', .singleton (.forEach hx hxs hitems), hτ⟩
  | nil =>
    intro D σ' hidden hagree
    exact ⟨σ', .nil, hagree⟩
  | cons _ _ ihhead ihrest =>
    intro D σ' hidden hagree
    obtain ⟨ρ', hhead, hρ⟩ := ihhead hidden.head hagree
    obtain ⟨τ', hrest, hτ⟩ := ihrest hidden.tail hρ
    exact ⟨τ', hhead.append hrest, hτ⟩
  | consBreak _ ih =>
    intro D σ' hidden hagree
    obtain ⟨τ', hhead, hτ⟩ := ih hidden.head hagree
    exact ⟨τ', hhead.append_broken _, hτ⟩
  | roundsEnd ht =>
    intro D σ' hidden hagree
    have htest := hidden.eval hagree (by simp [Task.node, free]) ht
    exact ⟨σ', .roundsEnd htest, hagree⟩
  | @roundsNext σ t w f b ρ x τ s o o' ht _ hf _ ihbody ihloop =>
    intro D σ' hidden hagree
    have htest := hidden.eval hagree (by simp [Task.node, free]) ht
    obtain ⟨ρ', hbody, hρ⟩ := ihbody hidden.loopBody hagree
    have hstep := hidden.eval hρ (fun v hv => by simp [Task.node, free, freeIn, hv]) hf
    obtain ⟨τ', hloop, hτ⟩ := ihloop hidden (hρ.set w x)
    exact ⟨τ', .roundsNext htest hbody hstep hloop, hτ⟩
  | roundsBreak ht _ ih =>
    intro D σ' hidden hagree
    have htest := hidden.eval hagree (by simp [Task.node, free]) ht
    obtain ⟨τ', hbody, hτ⟩ := ih hidden.loopBody hagree
    exact ⟨τ', .roundsBreak htest hbody, hτ⟩
  | itemsEnd =>
    intro D σ' hidden hagree
    exact ⟨σ', .itemsEnd, hagree⟩
  | @itemsNext σ v x xs b ρ τ s o o' _ _ ihbody ihloop =>
    intro D σ' hidden hagree
    obtain ⟨ρ', hbody, hρ⟩ := ihbody hidden.eachBody (hagree.set v x)
    obtain ⟨τ', hloop, hτ⟩ := ihloop hidden hρ
    exact ⟨τ', .itemsNext hbody hloop, hτ⟩
  | @itemsBreak σ v x xs b τ o _ ih =>
    intro D σ' hidden hagree
    obtain ⟨τ', hbody, hτ⟩ := ih hidden.eachBody (hagree.set v x)
    exact ⟨τ', .itemsBreak hbody, hτ⟩

/-! ## Plain trees -/

namespace Node

mutual

/-- An expression without calls, binary64 numbers and divisions. -/
def plainExpr : Node → Bool
  | bool _ | number (.int _) | var _ | string _ _ => true
  | unary _ operand _ => operand.plainExpr
  | binary op left right _ => op != .div && left.plainExpr && right.plainExpr
  | conditional consequent test alternate _ =>
    consequent.plainExpr && test.plainExpr && alternate.plainExpr
  | array elements _ => allPlainExpr elements
  | index a i _ => a.plainExpr && i.plainExpr
  | _ => false

/-- Expressions without calls, binary64 numbers and divisions. -/
def allPlainExpr : List Node → Bool
  | [] => true
  | e :: rest => e.plainExpr && allPlainExpr rest

end

/-- A declaration in the header of a loop. -/
def plainHeader : Node → Bool
  | declare _ initializer => initializer.plainExpr
  | _ => false

/-- A step in the header of a loop. -/
def plainStep : Node → Bool
  | assign _ source => source.plainExpr
  | _ => false

mutual

/-- A statement without functions and calls in which no loop was unrolled. -/
def plainStmt : Node → Bool
  | print argument => argument.plainExpr
  | declare _ initializer => initializer.plainExpr
  | assign _ source => source.plainExpr
  | shortIf test consequence => test.plainExpr && allPlainStmt consequence
  | ifElse test consequence alternate =>
    test.plainExpr && allPlainStmt consequence && alternate.plainAlternate
  | whileLoop test body => test.plainExpr && allPlainStmt body
  | forLoop declaration test increment body unrolled =>
    !unrolled && declaration.plainHeader && test.plainExpr && increment.plainStep &&
      allPlainStmt body
  | forEach _ collection body => collection.plainExpr && allPlainStmt body
  | exit => true
  | _ => false

/-- The alternative of such a statement: a list of statements or a further branch. -/
def plainAlternate : Node → Bool
  | list items => allPlainStmt items
  | shortIf test consequence => test.plainExpr && allPlainStmt consequence
  | ifElse test consequence alternate =>
    test.plainExpr && allPlainStmt consequence && alternate.plainAlternate
  | _ => false

/-- Statements without functions and calls in which no loop was unrolled. -/
def allPlainStmt : List Node → Bool
  | [] => true
  | s :: rest => s.plainStmt && allPlainStmt rest

end

/-- A program of such statements. -/
def plain : Node → Bool
  | program statements => allPlainStmt statements
  | _ => false

mutual

theorem isExpr_of_plainExpr : ∀ {e : Node}, e.plainExpr = true → e.isExpr = true
  | bool _, _ | number (.int _), _ | var _, _ | string _ _, _ => rfl
  | unary _ operand _, h => isExpr_of_plainExpr (e := operand) h
  | binary _ _ _ _, h => by
    simp only [plainExpr, Bool.and_eq_true] at h
    simp only [isExpr, Bool.and_eq_true]
    exact ⟨isExpr_of_plainExpr h.1.2, isExpr_of_plainExpr h.2⟩
  | conditional _ _ _ _, h => by
    simp only [plainExpr, Bool.and_eq_true] at h
    simp only [isExpr, Bool.and_eq_true]
    exact ⟨isExpr_of_plainExpr h.1.1, isExpr_of_plainExpr h.1.2, isExpr_of_plainExpr h.2⟩
  | array _ _, h => allExpr_of_allPlainExpr h
  | index _ _ _, h => by
    simp only [plainExpr, Bool.and_eq_true] at h
    simp only [isExpr, Bool.and_eq_true]
    exact ⟨isExpr_of_plainExpr h.1, isExpr_of_plainExpr h.2⟩

theorem allExpr_of_allPlainExpr : ∀ {items : List Node}, allPlainExpr items = true →
    allExpr items = true
  | [], _ => rfl
  | _ :: _, h => by
    simp only [allPlainExpr, Bool.and_eq_true] at h
    simp only [allExpr, Bool.and_eq_true]
    exact ⟨isExpr_of_plainExpr h.1, allExpr_of_allPlainExpr h.2⟩

end

theorem formed_of_plainHeader {n : Node} (h : n.plainHeader = true) :
    n.isDeclaration = true ∧ n.formed = true := by
  cases n with
  | declare v e => exact ⟨rfl, isExpr_of_plainExpr h⟩
  | _ => cases h

theorem formed_of_plainStep {n : Node} (h : n.plainStep = true) :
    n.isAssignment = true ∧ n.formed = true := by
  cases n with
  | assign v e => exact ⟨rfl, isExpr_of_plainExpr h⟩
  | _ => cases h

mutual

/-- A plain statement is well formed. -/
theorem formed_of_plainStmt : ∀ {n : Node}, n.plainStmt = true →
    n.isList = false ∧ n.formed = true
  | print _, h | declare _ _, h | assign _ _, h => ⟨rfl, isExpr_of_plainExpr h⟩
  | exit, _ => ⟨rfl, rfl⟩
  | shortIf _ _, h => by
    simp only [plainStmt, Bool.and_eq_true] at h
    simp only [formed, Bool.and_eq_true]
    exact ⟨rfl, isExpr_of_plainExpr h.1, allFormed_of_allPlainStmt h.2⟩
  | ifElse _ _ _, h => by
    simp only [plainStmt, Bool.and_eq_true] at h
    simp only [formed, Bool.and_eq_true]
    exact ⟨rfl, isExpr_of_plainExpr h.1.1, allFormed_of_allPlainStmt h.1.2,
      formed_of_plainAlternate h.2⟩
  | whileLoop _ _, h => by
    simp only [plainStmt, Bool.and_eq_true] at h
    simp only [formed, Bool.and_eq_true]
    exact ⟨rfl, isExpr_of_plainExpr h.1, allFormed_of_allPlainStmt h.2⟩
  | forLoop _ _ _ _ _, h => by
    simp only [plainStmt, Bool.and_eq_true] at h
    simp only [formed, Bool.and_eq_true]
    exact ⟨rfl, formed_of_plainHeader h.1.1.1.2, isExpr_of_plainExpr h.1.1.2,
      formed_of_plainStep h.1.2, allFormed_of_allPlainStmt h.2⟩
  | forEach _ _ _, h => by
    simp only [plainStmt, Bool.and_eq_true] at h
    simp only [formed, Bool.and_eq_true]
    exact ⟨rfl, isExpr_of_plainExpr h.1, allFormed_of_allPlainStmt h.2⟩

theorem formed_of_plainAlternate : ∀ {n : Node}, n.plainAlternate = true →
    n.isAlternative = true ∧ n.formed = true
  | list _, h => ⟨rfl, allFormed_of_allPlainStmt h⟩
  | shortIf _ _, h => by
    simp only [plainAlternate, Bool.and_eq_true] at h
    simp only [formed, Bool.and_eq_true]
    exact ⟨rfl, isExpr_of_plainExpr h.1, allFormed_of_allPlainStmt h.2⟩
  | ifElse _ _ _, h => by
    simp only [plainAlternate, Bool.and_eq_true] at h
    simp only [formed, Bool.and_eq_true]
    exact ⟨rfl, isExpr_of_plainExpr h.1.1, allFormed_of_allPlainStmt h.1.2,
      formed_of_plainAlternate h.2⟩

theorem allFormed_of_allPlainStmt : ∀ {items : List Node}, allPlainStmt items = true →
    allFormed items = true
  | [], _ => rfl
  | _ :: _, h => by
    simp only [allPlainStmt, Bool.and_eq_true] at h
    have hfirst := formed_of_plainStmt h.1
    simp [allFormed, hfirst.1, hfirst.2, allFormed_of_allPlainStmt h.2]

end

mutual

theorem rolled_of_plainStmt : ∀ {n : Node}, n.plainStmt = true → n.rolled = true
  | print _, _ | declare _ _, _ | assign _ _, _ | exit, _ => rfl
  | shortIf _ _, h => by
    simp only [plainStmt, Bool.and_eq_true] at h
    exact allRolled_of_plainStmt h.2
  | ifElse _ _ _, h => by
    simp only [plainStmt, Bool.and_eq_true] at h
    simp only [rolled, Bool.and_eq_true]
    exact ⟨allRolled_of_plainStmt h.1.2, rolled_of_plainAlternate h.2⟩
  | whileLoop _ _, h => by
    simp only [plainStmt, Bool.and_eq_true] at h
    exact allRolled_of_plainStmt h.2
  | forLoop _ _ _ _ _, h => by
    simp only [plainStmt, Bool.and_eq_true] at h
    simp only [rolled, Bool.and_eq_true]
    exact ⟨h.1.1.1.1, allRolled_of_plainStmt h.2⟩
  | forEach _ _ _, h => by
    simp only [plainStmt, Bool.and_eq_true] at h
    exact allRolled_of_plainStmt h.2

theorem rolled_of_plainAlternate : ∀ {n : Node}, n.plainAlternate = true → n.rolled = true
  | list _, h => allRolled_of_plainStmt h
  | shortIf _ _, h => by
    simp only [plainAlternate, Bool.and_eq_true] at h
    exact allRolled_of_plainStmt h.2
  | ifElse _ _ _, h => by
    simp only [plainAlternate, Bool.and_eq_true] at h
    simp only [rolled, Bool.and_eq_true]
    exact ⟨allRolled_of_plainStmt h.1.2, rolled_of_plainAlternate h.2⟩

theorem allRolled_of_plainStmt : ∀ {items : List Node}, allPlainStmt items = true →
    allRolled items = true
  | [], _ => rfl
  | _ :: _, h => by
    simp only [allPlainStmt, Bool.and_eq_true] at h
    simp only [allRolled, Bool.and_eq_true]
    exact ⟨rolled_of_plainStmt h.1, allRolled_of_plainStmt h.2⟩

end

/-! ## Programs -/

/-- The counters that may end with another value when a tree is optimized: those that
begin with a known integer. -/
def KnownStart (n : Node) (v : Variable) : Prop :=
  ∃ e, (v, e) ∈ n.headers ∧ ∃ k, e.optimize = number (.int k)

/-- In a plain program with distinct declarations whose counters stay in their loops,
the counters with a known start are hidden. -/
theorem hidden_knownStart {statements : List Node} (hplain : allPlainStmt statements = true)
    (hdistinct : (program statements).declared.Nodup)
    (hcounters : ∀ v ∈ (program statements).counters, v ∉ (program statements).free) :
    (shortIf null statements).Hidden (program statements).KnownStart where
  rolled := allRolled_of_plainStmt hplain
  distinct := hdistinct
  away v hv := by
    obtain ⟨e, he, -⟩ := hv
    exact hcounters v (List.mem_map_of_mem he)
  counted h hh := by
    constructor
    · rintro ⟨e, he, hk⟩
      have hsame : (h.1, e) = h := header_unique hdistinct he hh rfl
      rwa [← hsame]
    · intro hk
      exact ⟨h.2, hh, hk⟩

end Node

/-- Take a plain program in which every entity is declared in one place and every
counter is mentioned only in its loop.  If the program ends and prints some values,
then it can be optimized, and the optimized program ends and prints the same
values. -/
theorem optimize_keeps_output {p : Node} (hplain : p.plain = true) (hdistinct : p.declared.Nodup)
    (hcounters : ∀ v ∈ p.counters, v ∉ p.free) {o : List Value} (hrun : p.Outputs o) :
    ∃ q, Squishc.optimize p = .ok q ∧ q.Outputs o := by
  obtain ⟨statements, τ, rfl, hrun⟩ := hrun
  have hstatements : allPlainStmt statements = true := hplain
  have hobstacle : (program statements).obstacle? = none := by
    rw [obstacle?]
    exact anyObstacle?_of_allFormed (allFormed_of_allPlainStmt hstatements)
  obtain ⟨τ', hoptimized, -⟩ :=
    hrun.optimized (hidden_knownStart hstatements hdistinct hcounters) (fun _ _ => rfl)
  refine ⟨(program statements).optimize, ?_, optimizeStmts statements, τ', ?_, hoptimized⟩
  · rw [Squishc.optimize, hobstacle]
  · exact optimize_program statements

/-- A program with a loop of two rounds that can be unrolled. -/
def twoRounds : Node :=
  let i : Variable := ⟨0, "i", .int⟩
  program [
    forLoop (declare i (number (.int 0)))
      (binary .lt (var i) (number (.int 2)) .boolean)
      (assign i (binary .add (var i) (number (.int 1)) .int))
      [print (binary .mul (var i) (number (.int 1)) .int)] false]

/-- The loop is unrolled, and the output stays. -/
theorem twoRounds_keeps_output : twoRounds.Outputs [.int 0, .int 1] ∧
    ∃ q, Squishc.optimize twoRounds = .ok q ∧ q.Outputs [.int 0, .int 1] := by
  have hrun : twoRounds.Outputs [.int 0, .int 1] :=
    ⟨_, _, rfl, .singleton (.forLoop rfl
      (.roundsNext rfl (.singleton (.print rfl)) rfl
        (.roundsNext rfl (.singleton (.print rfl)) rfl (.roundsEnd rfl))))⟩
  exact ⟨hrun, optimize_keeps_output (by decide) (by decide) (by decide) hrun⟩

end Squishc
