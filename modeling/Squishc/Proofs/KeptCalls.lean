import Squishc.Compile
import Squishc.Proofs.ResolvedTree
import Squishc.Proofs.RuleChoice

/-!
# Calls in optimized expressions

A call may print something or change a variable, so it matters whether it is
made.  Optimizing moves no call and makes none twice, but it drops calls: an
operation that is known from one of its operands, such as a product with zero,
gives up the other operand together with the calls in it.  That is the only way
in which a call gets lost.

Main results:

- Theorem `Rule.calls_eq`: the calls that are left when an operation is
  reduced.
- Theorem `calls_optimize`: the calls of an optimized expression.
- Theorem `optimize_drops_absorbed_calls`: calls are lost in absorbed operands
  and nowhere else.
-/

namespace Squishc

namespace Node

/-! ## Calls -/

mutual

/-- The functions that an expression calls, from left to right and a call before
those in its arguments. -/
def calls : Node → List Function
  | call f args _ => f :: callsIn args
  | unary _ operand _ => operand.calls
  | binary _ left right _ => left.calls ++ right.calls
  | conditional consequent test alternate _ =>
    consequent.calls ++ (test.calls ++ alternate.calls)
  | array elements _ => callsIn elements
  | index a i _ => a.calls ++ i.calls
  | _ => []

/-- The functions that some expressions call. -/
def callsIn : List Node → List Function
  | [] => []
  | e :: rest => e.calls ++ callsIn rest

end

mutual

/-- The calls of an expression apart from those in operations that are known from
one operand alone. -/
def keptCalls : Node → List Function
  | call f args _ => f :: keptCallsIn args
  | unary _ operand _ => operand.keptCalls
  | binary op left right _ =>
    if absorbs op left.optimize right.optimize then [] else left.keptCalls ++ right.keptCalls
  | conditional consequent test alternate _ =>
    consequent.keptCalls ++ (test.keptCalls ++ alternate.keptCalls)
  | array elements _ => keptCallsIn elements
  | index a i _ => a.keptCalls ++ i.keptCalls
  | _ => []

/-- The calls of some expressions apart from those in operations that are known
from one operand alone. -/
def keptCallsIn : List Node → List Function
  | [] => []
  | e :: rest => e.keptCalls ++ keptCallsIn rest

end

mutual

/-- Whether the operations of an expression that are known from one operand alone
have no calls in them. -/
def sparesCalls : Node → Bool
  | call _ args _ => allSpareCalls args
  | unary _ operand _ => operand.sparesCalls
  | binary op left right _ =>
    (!absorbs op left.optimize right.optimize || (left.calls ++ right.calls).isEmpty) &&
      (left.sparesCalls && right.sparesCalls)
  | conditional consequent test alternate _ =>
    consequent.sparesCalls && (test.sparesCalls && alternate.sparesCalls)
  | array elements _ => allSpareCalls elements
  | index a i _ => a.sparesCalls && i.sparesCalls
  | _ => true

/-- Whether that is so of some expressions. -/
def allSpareCalls : List Node → Bool
  | [] => true
  | e :: rest => e.sparesCalls && allSpareCalls rest

end

/-! ## Reducing an operation -/

theorem calls_of_isNumber {n : Node} (h : n.isNumber = true) : n.calls = [] := by
  cases n with
  | number a => rfl
  | _ => cases h

theorem calls_of_neutralLeft {op : Op} {n : Node} (h : n.neutralLeft op = true) :
    n.calls = [] := by
  cases n with
  | number a => rfl
  | bool b => rfl
  | _ => cases h

theorem calls_of_neutralRight {op : Op} {n : Node} (h : n.neutralRight op = true) :
    n.calls = [] := by
  cases n with
  | number a => rfl
  | bool b => rfl
  | _ => cases h

theorem calls_of_turnsRight {op : Op} {n : Node} (h : n.turnsRight op = true) : n.calls = [] := by
  cases n with
  | number a => rfl
  | _ => cases h

theorem UnaryReduction.calls_eq {op : Op} {operand n : Node} {type : Ty}
    (h : UnaryReduction op operand type n) : n.calls = operand.calls := by
  cases h with
  | number a hop hoperand =>
    subst hoperand
    rfl
  | bool b hop hoperand =>
    subst hoperand
    rfl
  | kept => rfl

/-- A reduced operation has the calls of both operands, unless it is known from one
of them alone. -/
theorem Rule.calls_eq {op : Op} {left right n : Node} {type : Ty}
    (h : Rule op left right type n) :
    n.calls = if absorbs op left right then [] else left.calls ++ right.calls := by
  cases h with
  | @folded a b c hleft hright hfold =>
    subst hleft
    subst hright
    cases c <;> simp [ofConstant, Node.calls]
  | right hneutral hnumbers =>
    rw [absorbs_of_neutralLeft hneutral hnumbers, calls_of_neutralLeft hneutral]
    rfl
  | left hneutral _ hnumbers =>
    rw [absorbs_of_neutralRight hneutral hnumbers, calls_of_neutralRight hneutral,
      List.append_nil]
    rfl
  | turned hturns hnumber =>
    rw [absorbs_of_turnsRight hturns, calls_of_turnsRight hturns]
    rfl
  | absorbed k habsorbs hnumbers =>
    rw [if_pos habsorbs]
    rfl
  | kept hirreducible =>
    by_cases hnumbers : (left.isNumber && right.isNumber) = true
    · -- Two numbers that cannot be folded may look like an absorbing operation.
      rw [Bool.and_eq_true] at hnumbers
      simp [Node.calls, calls_of_isNumber hnumbers.1, calls_of_isNumber hnumbers.2]
    · rw [Bool.not_eq_true] at hnumbers
      rw [absorbs_of_not_reducible hirreducible hnumbers]
      rfl

mutual

/-- The calls of an optimized expression. -/
theorem calls_optimize : ∀ e : Node, e.isExpr = true → e.optimize.calls = e.keptCalls
  | bool _, _ | number _, _ | var _, _ | string _ _, _ => rfl
  | call f args type, h => by
    rw [optimize_call, calls, keptCalls, callsIn_optimizeAll args h]
  | unary op operand type, h => by
    rw [optimize_unary, keptCalls, ← calls_optimize operand h]
    exact (unaryReduction_reduceUnary op operand.optimize type).calls_eq
  | binary op left right type, h => by
    simp only [isExpr, Bool.and_eq_true] at h
    rw [optimize_binary, (rule_reduceBinary op left.optimize right.optimize type).calls_eq,
      calls_optimize left h.1, calls_optimize right h.2, keptCalls]
  | conditional consequent test alternate type, h => by
    simp only [isExpr, Bool.and_eq_true] at h
    rw [optimize_conditional, calls, keptCalls, calls_optimize consequent h.1,
      calls_optimize test h.2.1, calls_optimize alternate h.2.2]
  | array elements type, h => by
    rw [optimize_array, calls, keptCalls, callsIn_optimizeAll elements h]
  | index a i type, h => by
    simp only [isExpr, Bool.and_eq_true] at h
    rw [optimize_index, calls, keptCalls, calls_optimize a h.1, calls_optimize i h.2]

theorem callsIn_optimizeAll : ∀ es : List Node, allExpr es = true →
    callsIn (optimizeAll es) = keptCallsIn es
  | [], _ => rfl
  | e :: rest, h => by
    simp only [allExpr, Bool.and_eq_true] at h
    rw [optimizeAll_cons, callsIn, keptCallsIn, calls_optimize e h.1, callsIn_optimizeAll rest h.2]

end

/-! ## Lost calls -/

mutual

/-- The kept calls are calls of the expression, in the same order. -/
theorem keptCalls_sublist : ∀ e : Node, e.isExpr = true → e.keptCalls.Sublist e.calls
  | bool _, _ | number _, _ | var _, _ | string _ _, _ => .refl []
  | call f args _, h => (keptCallsIn_sublist args h).cons_cons f
  | unary _ operand _, h => keptCalls_sublist operand h
  | binary op left right _, h => by
    simp only [isExpr, Bool.and_eq_true] at h
    rw [keptCalls, calls]
    split
    · exact List.nil_sublist _
    · exact (keptCalls_sublist left h.1).append (keptCalls_sublist right h.2)
  | conditional consequent test alternate _, h => by
    simp only [isExpr, Bool.and_eq_true] at h
    exact (keptCalls_sublist consequent h.1).append
      ((keptCalls_sublist test h.2.1).append (keptCalls_sublist alternate h.2.2))
  | array elements _, h => keptCallsIn_sublist elements h
  | index a i _, h => by
    simp only [isExpr, Bool.and_eq_true] at h
    exact (keptCalls_sublist a h.1).append (keptCalls_sublist i h.2)

theorem keptCallsIn_sublist : ∀ es : List Node, allExpr es = true →
    (keptCallsIn es).Sublist (callsIn es)
  | [], _ => .refl []
  | e :: rest, h => by
    simp only [allExpr, Bool.and_eq_true] at h
    exact (keptCalls_sublist e h.1).append (keptCallsIn_sublist rest h.2)

end

/-- Sublists make up the whole only if each is the whole of its part. -/
theorem append_eq_append_of_sublist {α : Type} {as bs cs ds : List α} (h : as.Sublist cs)
    (h' : bs.Sublist ds) : as ++ bs = cs ++ ds ↔ as = cs ∧ bs = ds := by
  constructor
  · intro heq
    have hlength := congrArg List.length heq
    rw [List.length_append, List.length_append] at hlength
    have hle := h.length_le
    have hle' := h'.length_le
    exact ⟨h.eq_of_length (by omega), h'.eq_of_length (by omega)⟩
  · intro heq
    rw [heq.1, heq.2]

mutual

/-- All calls are kept if and only if no operation that is known from one operand has
a call in it. -/
theorem keptCalls_eq_calls_iff : ∀ e : Node, e.isExpr = true →
    (e.keptCalls = e.calls ↔ e.sparesCalls = true)
  | bool _, _ | number _, _ | var _, _ | string _ _, _ => ⟨fun _ => rfl, fun _ => rfl⟩
  | call f args _, h => by
    rw [keptCalls, calls, sparesCalls, List.cons.injEq, ← keptCallsIn_eq_callsIn_iff args h]
    exact and_iff_right rfl
  | unary _ operand _, h => keptCalls_eq_calls_iff operand h
  | binary op left right _, h => by
    simp only [isExpr, Bool.and_eq_true] at h
    have hleft := keptCalls_sublist left h.1
    have hright := keptCalls_sublist right h.2
    have happend := append_eq_append_of_sublist hleft hright
    rw [keptCalls_eq_calls_iff left h.1, keptCalls_eq_calls_iff right h.2] at happend
    simp only [keptCalls, calls, sparesCalls, Bool.and_eq_true, Bool.or_eq_true, List.isEmpty_iff]
    split
    · next habsorbs =>
      -- Nothing is kept here, so all is kept only if there is nothing.
      rw [eq_comm, or_iff_right (by simp [habsorbs])]
      constructor
      · intro hnone
        refine ⟨hnone, happend.1 ?_⟩
        rw [hnone]
        exact List.sublist_nil.1 (hnone ▸ hleft.append hright)
      · intro hnone
        exact hnone.1
    · next habsorbs => simp [habsorbs, happend]
  | conditional consequent test alternate _, h => by
    simp only [isExpr, Bool.and_eq_true] at h
    have hconsequent := keptCalls_sublist consequent h.1
    have htest := keptCalls_sublist test h.2.1
    have halternate := keptCalls_sublist alternate h.2.2
    simp only [keptCalls, calls, sparesCalls, Bool.and_eq_true]
    rw [append_eq_append_of_sublist hconsequent (htest.append halternate),
      append_eq_append_of_sublist htest halternate, keptCalls_eq_calls_iff consequent h.1,
      keptCalls_eq_calls_iff test h.2.1, keptCalls_eq_calls_iff alternate h.2.2]
  | array elements _, h => keptCallsIn_eq_callsIn_iff elements h
  | index a i _, h => by
    simp only [isExpr, Bool.and_eq_true] at h
    simp only [keptCalls, calls, sparesCalls, Bool.and_eq_true]
    rw [append_eq_append_of_sublist (keptCalls_sublist a h.1) (keptCalls_sublist i h.2),
      keptCalls_eq_calls_iff a h.1, keptCalls_eq_calls_iff i h.2]

theorem keptCallsIn_eq_callsIn_iff : ∀ es : List Node, allExpr es = true →
    (keptCallsIn es = callsIn es ↔ allSpareCalls es = true)
  | [], _ => ⟨fun _ => rfl, fun _ => rfl⟩
  | e :: rest, h => by
    simp only [allExpr, Bool.and_eq_true] at h
    rw [keptCallsIn, callsIn, allSpareCalls, Bool.and_eq_true,
      append_eq_append_of_sublist (keptCalls_sublist e h.1) (keptCallsIn_sublist rest h.2),
      keptCalls_eq_calls_iff e h.1, keptCallsIn_eq_callsIn_iff rest h.2]

end

end Node

/-! ## Resolved expressions -/

/-- An expression that was resolved can be optimized, and of its calls exactly those
are lost that stand in an operation which is known from one operand alone.  The
others stay in their order, and all calls stay if and only if no such operation has
a call in it. -/
theorem optimize_drops_absorbed_calls {chain : Chain} {e : Surface.Expr} {n : Node}
    (h : Resolve.expr chain e = .ok n) :
    ∃ m, optimize n = .ok m ∧ m.calls = n.keptCalls ∧ m.calls.Sublist n.calls ∧
      (m.calls = n.calls ↔ n.sparesCalls = true) := by
  have hexpr : n.isExpr = true := ((Resolve.expr_settled chain e).ok h).1
  have hcalls := Node.calls_optimize n hexpr
  refine ⟨n.optimize, ?_, hcalls, ?_, ?_⟩
  · rw [optimize, Node.obstacle?_of_isExpr hexpr]
  · rw [hcalls]
    exact Node.keptCalls_sublist n hexpr
  · rw [hcalls]
    exact Node.keptCalls_eq_calls_iff n hexpr

/-- A function without parameters. -/
def ticker : Function := ⟨0, "g", []⟩

/-- The chain of scopes behind the declaration of that function. -/
def tickerChain : Chain := [⟨[("g", .function ticker)], false, none⟩]

/-- A call beside a second one that is multiplied by zero. -/
def halfAbsorbed : Surface.Expr :=
  .binary ⟨1, 1⟩ .add (.call ⟨1, 2⟩ "g" [])
    (.binary ⟨1, 8⟩ .mul (.int ⟨1, 8⟩ 0) (.call ⟨1, 13⟩ "g" []))

theorem halfAbsorbed_drops_absorbed_call :
    ∃ n m, Resolve.expr tickerChain halfAbsorbed = .ok n ∧ n.calls = [ticker, ticker] ∧
      optimize n = .ok m ∧ m.calls = [ticker] ∧ m.calls.Sublist n.calls := by
  have hresolved : Resolve.expr tickerChain halfAbsorbed = .ok (.binary .add
      (.call ticker [] .any) (.binary .mul (.number (.int 0)) (.call ticker [] .any) .int) .int) :=
    rfl
  obtain ⟨m, hoptimize, hcalls, hsublist, -⟩ := optimize_drops_absorbed_calls hresolved
  exact ⟨_, m, hresolved, rfl, hoptimize, hcalls, hsublist⟩

/-- A program that prints the product of zero and a call. -/
def zeroTimesCall : Surface.Program :=
  ⟨[.function ⟨1, 1⟩ "g" [] [.print ⟨1, 6⟩ (.int ⟨1, 12⟩ 1)],
    .print ⟨1, 20⟩ (.binary ⟨1, 26⟩ .mul (.int ⟨1, 26⟩ 0) (.call ⟨1, 31⟩ "g" []))]⟩

/-- The product in that program makes a call, and its optimized form makes none. -/
theorem zeroTimesCall_loses_call :
    ∃ n, resolve zeroTimesCall =
        .ok (.program [.define ticker [.print (.number (.int 1))], .print n]) ∧
      n.calls = [ticker] ∧ ∃ m, optimize n = .ok m ∧ m.calls = [] :=
  ⟨_, rfl, rfl, _, rfl, rfl⟩

end Squishc
