import Squishc.Proofs.Machine
import Squishc.Proofs.StrictTypes

/-!
# Soundness of the rules on types

A program that is strictly typed never does anything with a value of the wrong
kind.  It may still read a variable that holds nothing yet, or go beyond the end
of an array.

What carries the proof is that the state of a run stays well typed: each variable
that holds something holds a value of its type, and what is left to do is strictly
typed.  A single step keeps this, whatever the machine does with numbers.

Main results:

- Theorem `compute_safe`: the value of a strictly typed expression is of its type.
- Theorem `step_safe`: a step keeps a state well typed.
- Theorem `run_safe`: so does a run.
- Theorem `resolved_program_runs_safe`: no run of a resolved program meets a value
  of the wrong kind.
-/

namespace Squishc

/-! ## Values of a type -/

open Machine

/-- A value is of the kind that a type says.  Both sorts of numbers are of one kind,
and all items of an array are of the type of its elements. -/
def Ty.Admits {N : Type} : Ty → Datum N → Prop
  | boolean, .bool _ => True
  | int, .number _ => True
  | float, .number _ => True
  | string, .string _ => True
  | array element, .array items => ∀ x ∈ items, element.Admits x
  | _, _ => False

/-- The kind of the values of a type. -/
def Ty.kind? : Ty → Option Kind
  | boolean => some .bool
  | int | float => some .number
  | string => some .string
  | array _ => some .array
  | void | any => none

namespace Machine

variable {N : Type} {M : Arithmetic N} {x y : Datum N} {t : Ty}

theorem eq_bool_of_admits (h : Ty.boolean.Admits x) : ∃ b, x = .bool b := by
  cases x with
  | bool b => exact ⟨b, rfl⟩
  | _ => cases h

theorem eq_string_of_admits (h : Ty.string.Admits x) : ∃ s, x = .string s := by
  cases x with
  | string s => exact ⟨s, rfl⟩
  | _ => cases h

theorem eq_number_of_admits (ht : t.isNumeric = true) (h : t.Admits x) : ∃ n, x = .number n := by
  cases t with
  | int | float =>
    cases x with
    | number n => exact ⟨n, rfl⟩
    | _ => cases h
  | _ => cases ht

theorem admits_number (ht : t.isNumeric = true) (n : N) : t.Admits (.number n) := by
  cases t with
  | int | float => trivial
  | _ => cases ht

theorem eq_array_of_admits {element : Ty} (h : (Ty.array element).Admits x) :
    ∃ items, x = .array items ∧ ∀ item ∈ items, element.Admits item := by
  cases x with
  | array items => exact ⟨items, rfl, h⟩
  | _ => cases h

/-- A value of a type is of the kind of that type. -/
theorem kind_of_admits (h : t.Admits x) : t.kind? = some x.kind := by
  unfold Ty.Admits at h
  split at h
  · rfl
  · rfl
  · rfl
  · rfl
  · rfl
  · cases h

/-! ## Outcomes -/

/-- A result is good, and if there is none that is not for a wrong kind. -/
def Safe {α : Type} (r : Outcome α) (good : α → Prop) : Prop :=
  match r with
  | .ok a => good a
  | .error trouble => trouble ≠ .wrongKind

theorem Safe.bind {α β : Type} {r : Outcome α} {next : α → Outcome β} {mid : α → Prop}
    {good : β → Prop} (h : Safe r mid) (hnext : ∀ a, mid a → Safe (next a) good) :
    Safe (r >>= next) good := by
  cases r with
  | ok a => exact hnext a h
  | error trouble => exact h

/-! ## Operations -/

theorem truth_safe (h : Ty.boolean.Admits x) : Safe x.truth fun _ => True := by
  rcases eq_bool_of_admits h with ⟨b, rfl⟩
  trivial

theorem part_safe {α : Type} {items : List α} {good : α → Prop} (h : ∀ item ∈ items, good item)
    (place? : Option Nat) : Safe (Datum.part items place?) good := by
  unfold Datum.part
  split
  · next item hitem =>
    rcases Option.bind_eq_some_iff.mp hitem with ⟨place, -, hplace⟩
    exact h item (List.mem_of_getElem? hplace)
  · exact Trouble.noConfusion

theorem unary_not_safe (h : Ty.boolean.Admits x) : Safe (x.unary M .not) Ty.boolean.Admits := by
  rcases eq_bool_of_admits h with ⟨b, rfl⟩
  trivial

theorem unary_sub_safe (ht : t.isNumeric = true) (h : t.Admits x) :
    Safe (x.unary M .sub) t.Admits := by
  rcases eq_number_of_admits ht h with ⟨n, rfl⟩
  exact admits_number ht (M.negate n)

theorem binary_logic_safe {op : Op} (hop : op = .conj ∨ op = .disj) (hx : Ty.boolean.Admits x)
    (hy : Ty.boolean.Admits y) : Safe (x.binary M op y) Ty.boolean.Admits := by
  rcases eq_bool_of_admits hx with ⟨a, rfl⟩
  rcases eq_bool_of_admits hy with ⟨b, rfl⟩
  rcases hop with rfl | rfl <;> trivial

/-- Values of one type can be compared. -/
theorem binary_comparison_safe {op : Op} (hop : op.isComparison = true) (hx : t.Admits x)
    (hy : t.Admits y) : Safe (x.binary M op y) Ty.boolean.Admits := by
  have hkind : x.kind = y.kind :=
    Option.some.inj ((kind_of_admits hx).symm.trans (kind_of_admits hy))
  have hcompare : x.compare M op y = .ok (.bool (M.holds op x y)) := by
    rw [Datum.compare, if_pos hkind]
  have hbinary : x.binary M op y = x.compare M op y := by
    cases op with
    | lt | le | eq | ne | ge | gt => rfl
    | _ => cases hop
  rw [hbinary, hcompare]
  trivial

theorem binary_join_safe (hx : Ty.string.Admits x) (hy : Ty.string.Admits y) :
    Safe (x.binary M .add y) Ty.string.Admits := by
  rcases eq_string_of_admits hx with ⟨s, rfl⟩
  rcases eq_string_of_admits hy with ⟨u, rfl⟩
  trivial

theorem binary_arithmetic_safe {op : Op} (hop : op.givesTruth = false) (ht : t.isNumeric = true)
    (hx : t.Admits x) (hy : t.Admits y) : Safe (x.binary M op y) t.Admits := by
  rcases eq_number_of_admits ht hx with ⟨m, rfl⟩
  rcases eq_number_of_admits ht hy with ⟨n, rfl⟩
  have hbinary : (Datum.number m).binary M op (.number n) = .ok (.number (M.apply op m n)) := by
    cases op with
    | conj | disj | lt | le | eq | ne | ge | gt => cases hop
    | _ => rfl
  rw [hbinary]
  exact admits_number ht (M.apply op m n)

theorem index_array_safe {element : Ty} (hx : (Ty.array element).Admits x)
    (hy : Ty.int.Admits y) : Safe (x.index M y) element.Admits := by
  rcases eq_array_of_admits hx with ⟨items, rfl, hitems⟩
  rcases eq_number_of_admits rfl hy with ⟨n, rfl⟩
  exact part_safe hitems (M.place? n)

theorem index_string_safe (hx : Ty.string.Admits x) (hy : Ty.int.Admits y) :
    Safe (x.index M y) Ty.string.Admits := by
  rcases eq_string_of_admits hx with ⟨s, rfl⟩
  rcases eq_number_of_admits rfl hy with ⟨n, rfl⟩
  have hpart : Safe (Datum.part s.toList (M.place? n)) fun _ => True :=
    part_safe (fun _ _ => trivial) (M.place? n)
  exact hpart.bind fun _ _ => trivial

/-! ## Expressions -/

/-- Each variable that holds something holds a value of its type. -/
def Store.Fits (σ : Store N) : Prop := ∀ v x, σ v = some x → v.type.Admits x

theorem Store.Fits.set {σ : Store N} (h : σ.Fits) {v : Variable} (hx : v.type.Admits x) :
    (σ.set v x).Fits := by
  intro w y hy
  by_cases hsame : w = v
  · subst hsame
    rw [Store.set, if_pos rfl] at hy
    cases hy
    exact hx
  · rw [Store.set, if_neg hsame] at hy
    exact h w y hy

theorem Store.Fits.read {σ : Store N} (h : σ.Fits) (v : Variable) :
    Safe (σ.read v) v.type.Admits := by
  unfold Store.read
  split
  · next y hy => exact h v y hy
  · exact Trouble.noConfusion

theorem computeAll_safe {σ : Store N} {elements : List Node}
    (h : ∀ e ∈ elements, Safe (compute M σ e) t.Admits) :
    Safe (computeAll M σ elements) fun items => ∀ item ∈ items, t.Admits item := by
  induction elements with
  | nil => exact List.forall_mem_nil _
  | cons e rest ih =>
    rw [List.forall_mem_cons] at h
    refine h.1.bind fun item hitem => ?_
    refine (ih h.2).bind fun items hitems => ?_
    exact List.forall_mem_cons.mpr ⟨hitem, hitems⟩

/-- An operation is safe if it is safe on all values of its operands.  What the left
operand alone decides is a truth value. -/
theorem compute_binary_safe {σ : Store N} {op : Op} {left right : Node}
    {leftType rightType type : Ty} (hleft : Safe (compute M σ left) leftType.Admits)
    (hright : Safe (compute M σ right) rightType.Admits)
    (hdecides : ∀ (x : Datum N) b, x.decides? op = some b → t.Admits (.bool b : Datum N))
    (hbinary : ∀ x y : Datum N, leftType.Admits x → rightType.Admits y →
      Safe (x.binary M op y) t.Admits) :
    Safe (compute M σ (.binary op left right type)) t.Admits := by
  refine hleft.bind fun x hx => ?_
  split
  · next b hb => exact hdecides x b hb
  · exact hright.bind fun y hy => hbinary x y hx hy

/-- Only conjunctions and disjunctions are decided by one operand. -/
theorem decides?_eq_none {op : Op} (hconj : op ≠ .conj) (hdisj : op ≠ .disj) (x : Datum N) :
    x.decides? op = none := by
  unfold Datum.decides?
  split
  · exact (hconj rfl).elim
  · exact (hdisj rfl).elim
  · rfl

/-- The value of an expression is of its type. -/
theorem compute_safe {σ : Store N} (hσ : σ.Fits) {e : Node} (h : e.HasType t) :
    Safe (compute M σ e) t.Admits := by
  -- By induction on the typing, whose rules are finer than the kinds of expressions.
  induction h with
  | bool b => trivial
  | number a => cases a <;> trivial
  | string s => trivial
  | var _ => exact hσ.read _
  | array _ _ ih => exact (computeAll_safe ih).bind fun items hitems => hitems
  | element _ _ iha ihi =>
    refine iha.bind fun x hx => ?_
    exact ihi.bind fun y hy => index_array_safe hx hy
  | character _ _ iha ihi =>
    refine iha.bind fun x hx => ?_
    exact ihi.bind fun y hy => index_string_safe hx hy
  | negation _ ih => exact ih.bind fun x hx => unary_not_safe hx
  | sign hnumeric _ ih => exact ih.bind fun x hx => unary_sub_safe hnumeric hx
  | logic hop _ _ ihl ihr =>
    exact compute_binary_safe ihl ihr (fun _ _ _ => trivial) fun _ _ => binary_logic_safe hop
  | comparison hop _ _ ihl ihr =>
    exact compute_binary_safe ihl ihr (fun _ _ _ => trivial)
      fun _ _ => binary_comparison_safe hop
  | join _ _ ihl ihr =>
    refine compute_binary_safe ihl ihr (fun x b hb => ?_) fun _ _ => binary_join_safe
    rw [decides?_eq_none (by simp) (by simp)] at hb
    cases hb
  | @arithmetic op _ _ _ hop hnumeric _ _ ihl ihr =>
    refine compute_binary_safe ihl ihr (fun x b hb => ?_)
      fun _ _ => binary_arithmetic_safe hop hnumeric
    have hne : op ≠ .conj ∧ op ≠ .disj := by
      constructor
      · rintro rfl
        cases hop
      · rintro rfl
        cases hop
    rw [decides?_eq_none hne.1 hne.2] at hb
    cases hb
  | conditional _ _ _ ihc iht iha =>
    refine iht.bind fun x hx => ?_
    refine (truth_safe hx).bind fun b _ => ?_
    cases b
    · exact iha
    · exact ihc

theorem computeTest_safe {σ : Store N} (hσ : σ.Fits) {e : Node} (h : e.HasType .boolean) :
    Safe (computeTest M σ e) fun _ => True :=
  (compute_safe hσ h).bind fun _ hx => truth_safe hx

/-! ## Tasks and states -/

/-- A task is strictly typed. -/
def Task.Fits : Task N → Prop
  | .stmt n => n.Fits
  | .again test body closing => test.HasType .boolean ∧ ∀ n ∈ body ++ closing, n.Fits
  | .rounds iterator collection _ body =>
    (∃ type, Resolve.itemType? type = some iterator.type ∧ type.Admits collection) ∧
      ∀ n ∈ body, n.Fits

/-- The variables hold values of their types, and what is left to do is strictly
typed. -/
structure State.Fits (s : State N) : Prop where
  store : s.store.Fits
  tasks : ∀ task ∈ s.tasks, task.Fits

namespace State.Fits

variable {s : State N} (h : s.Fits)

include h

theorem push {task : Task N} (htask : task.Fits) : (s.push task).Fits :=
  ⟨h.store, List.forall_mem_cons.mpr ⟨htask, h.tasks⟩⟩

theorem enter {body : List Node} (hbody : ∀ n ∈ body, n.Fits) : (s.enter body).Fits := by
  refine ⟨h.store, ?_⟩
  intro task htask
  rcases List.mem_append.mp htask with htask | htask
  · rcases List.mem_map.mp htask with ⟨n, hn, rfl⟩
    exact hbody n hn
  · exact h.tasks task htask

theorem leave : s.leave.Fits := by
  refine ⟨h.store, ?_⟩
  intro task htask
  exact h.tasks task (List.dropWhile_subset _ (List.mem_of_mem_tail htask))

theorem print (x : Datum N) : (s.print x).Fits := ⟨h.store, h.tasks⟩

theorem set {v : Variable} (hx : v.type.Admits x) : (s.set v x).Fits := ⟨h.store.set hx, h.tasks⟩

end State.Fits

/-! ## Steps -/

section Collections

variable {item : Ty} (ht : Resolve.itemType? t = some item) (hx : t.Admits x)

include ht hx

theorem isCollection_of_admits : x.isCollection = true := by
  have hkind := kind_of_admits hx
  cases t with
  | int | string | array _ =>
    have hne : x.kind ≠ .bool := by
      rw [← Option.some.inj hkind]
      exact Kind.noConfusion
    exact decide_eq_true hne
  | any => cases hkind
  | _ => cases ht

/-- A loop over a collection gives values of the type of its items. -/
theorem round?_admits {k : Nat} (h : x.round? M k = some y) : item.Admits y := by
  cases t with
  | int =>
    cases ht
    rcases eq_number_of_admits rfl hx with ⟨n, rfl⟩
    rcases Option.map_eq_some_iff.mp h with ⟨m, -, rfl⟩
    trivial
  | string =>
    cases ht
    rcases eq_string_of_admits hx with ⟨s, rfl⟩
    rcases Option.map_eq_some_iff.mp h with ⟨c, -, rfl⟩
    trivial
  | array element =>
    cases ht
    rcases eq_array_of_admits hx with ⟨items, rfl, hitems⟩
    exact hitems y (List.mem_of_getElem? h)
  | any => cases hx
  | _ => cases ht

end Collections

/-- A step into a strictly typed statement is safe. -/
theorem stepStmt_safe {s : State N} (hs : s.Fits) {n : Node} (h : n.Fits) :
    Safe (stepStmt M s n) State.Fits := by
  cases h with
  | print hargument => exact (compute_safe hs.store hargument).bind fun x _ => hs.print x
  | declare hinitializer => exact (compute_safe hs.store hinitializer).bind fun _ hx => hs.set hx
  | assign hsource => exact (compute_safe hs.store hsource).bind fun _ hx => hs.set hx
  | shortIf htest hconsequence =>
    refine (computeTest_safe hs.store htest).bind fun b _ => ?_
    cases b
    · exact hs
    · exact hs.enter hconsequence
  | ifElse htest hconsequence halternate =>
    refine (computeTest_safe hs.store htest).bind fun b _ => ?_
    cases b
    · exact hs.enter halternate
    · exact hs.enter hconsequence
  | whileLoop htest hbody => exact hs.push ⟨htest, by rwa [List.append_nil]⟩
  | @forLoop declaration test increment body unrolled hdeclaration htest hincrement hbody =>
    -- The loop waits behind its declaration, with the increment to close each round.
    cases unrolled
    · have hloop : (Task.again test body [increment] : Task N).Fits :=
        ⟨htest, List.forall_mem_append.mpr ⟨hbody, List.forall_mem_singleton.mpr hincrement⟩⟩
      exact (hs.push hloop).enter (List.forall_mem_singleton.mpr hdeclaration)
    · exact hs.enter (List.forall_mem_cons.mpr ⟨hdeclaration, hbody⟩)
  | forEach hcollection hitem hbody =>
    refine (compute_safe hs.store hcollection).bind fun x hx => ?_
    rw [isCollection_of_admits hitem hx]
    exact hs.push ⟨⟨_, hitem, hx⟩, hbody⟩
  | exit => exact hs.leave
  | program hstatements => exact hs.enter hstatements

theorem stepTask_safe {s : State N} (hs : s.Fits) {task : Task N} (h : task.Fits) :
    Safe (stepTask M s task) State.Fits := by
  cases task with
  | stmt n => exact stepStmt_safe hs h
  | again test body closing =>
    refine (computeTest_safe hs.store h.1).bind fun b _ => ?_
    cases b
    · exact hs
    · exact (hs.push h).enter h.2
  | rounds iterator collection round body =>
    rcases h with ⟨⟨type, hitem, hcollection⟩, hbody⟩
    rw [stepTask]
    split
    · next x hx =>
      have hset := hs.set (round?_admits hitem hcollection hx)
      have hloop : (Task.rounds iterator collection (round + 1) body).Fits :=
        ⟨⟨type, hitem, hcollection⟩, hbody⟩
      exact (hset.push hloop).enter hbody
    · exact hs

/-- A step keeps a state well typed and does nothing with a value of the wrong
kind. -/
theorem step_safe {s : State N} (hs : s.Fits) : Safe (step M s) State.Fits := by
  unfold step
  split
  · exact hs
  · next task rest htasks =>
    have htyped := hs.tasks
    rw [htasks, List.forall_mem_cons] at htyped
    have hrest : State.Fits ⟨s.store, s.printed, rest⟩ := ⟨hs.store, htyped.2⟩
    exact stepTask_safe hrest htyped.1

/-- A run keeps a state well typed and does nothing with a value of the wrong
kind. -/
theorem run_safe {s : State N} (hs : s.Fits) (n : Nat) : Safe (run M n s) State.Fits := by
  induction n generalizing s with
  | zero => exact hs
  | succ n ih => exact (step_safe hs).bind fun next hnext => ih hnext

theorem start_fits {program : Node} (h : program.Fits) : (State.start program : State N).Fits where
  store := fun _ _ hx => by cases hx
  tasks := List.forall_mem_singleton.mpr h

end Machine

/-! ## Resolved programs -/

/-- However a machine treats numbers, and however many steps it makes of a resolved
program without functions: it never does anything with a value of the wrong kind, and
each variable that holds something holds a value of its type. -/
theorem resolved_program_runs_safe {p : Surface.Program} {t : Node} (h : resolve p = .ok t)
    (hfirst : t.firstOrder = true) {N : Type} (M : Arithmetic N) (n : Nat) :
    run M n (.start t) ≠ .error .wrongKind ∧
      ∀ s, run M n (.start t) = .ok s → ∀ v x, s.store v = some x → v.type.Admits x := by
  have hsafe := run_safe (M := M) (start_fits (resolve_fits h hfirst)) n
  constructor
  · intro herror
    rw [herror] at hsafe
    exact hsafe rfl
  · intro s hs
    rw [hs] at hsafe
    exact hsafe.store

/-- Integers, with as much arithmetic as the program below needs. -/
def smallArithmetic : Arithmetic Int where
  literal
    | .int n => n
    | .float _ => 0
  negate n := -n
  apply _ m n := m + n
  holds
    | .lt, .number m, .number n => m < n
    | _, _, _ => false
  place? n := if 0 ≤ n then some n.toNat else none
  count? n k := if k < n then some k else none

/-- A variable that leaks out of a branch, and a loop over an array that is left
early. -/
def leakingString : Surface.Program :=
  ⟨[.declare ⟨⟨1, 1⟩, "a", .array ⟨1, 12⟩ [.int ⟨1, 13⟩ 3, .int ⟨1, 16⟩ 4]⟩,
    .branch ⟨2, 1⟩
      (.binary ⟨2, 4⟩ .lt (.index ⟨2, 4⟩ (.var ⟨2, 4⟩ "a") (.int ⟨2, 6⟩ 0)) (.int ⟨2, 11⟩ 5))
      [.declare ⟨⟨3, 3⟩, "s", .string ⟨3, 14⟩ "x"⟩] .absent,
    .assign ⟨⟨4, 1⟩, "s", .binary ⟨4, 5⟩ .add (.var ⟨4, 5⟩ "s") (.string ⟨4, 9⟩ "y")⟩,
    .forEach ⟨5, 1⟩ (.var ⟨5, 1⟩ "a") "i"
      [.branch ⟨6, 3⟩ (.binary ⟨6, 6⟩ .lt (.int ⟨6, 6⟩ 3) (.var ⟨6, 10⟩ "i")) [.exit ⟨6, 13⟩]
          .absent,
        .print ⟨7, 3⟩ (.var ⟨7, 9⟩ "s")]]⟩

theorem leakingString_runs_safe :
    ∃ t s, resolve leakingString = .ok t ∧ t.firstOrder = true ∧
      run smallArithmetic 16 (.start t) = .ok s ∧ s.tasks = [] ∧ s.printed = [.string "xy"] ∧
      ∀ v x, s.store v = some x → v.type.Admits x := by
  have hends : ∃ t s, resolve leakingString = .ok t ∧ t.firstOrder = true ∧
      run smallArithmetic 16 (.start t) = .ok s ∧ s.tasks = [] ∧ s.printed = [.string "xy"] :=
    ⟨_, _, rfl, rfl, rfl, rfl, rfl⟩
  rcases hends with ⟨t, s, ht, hfirst, hs, htasks, hprinted⟩
  have hsafe := (resolved_program_runs_safe ht hfirst smallArithmetic 16).2 s hs
  exact ⟨t, s, ht, hfirst, hs, htasks, hprinted, hsafe⟩

end Squishc
