import Squishc.Proofs.TokenPrinter

/-!
# Reading on levels

The readers of the grammar of expressions call one another from the loosest level
to the tightest.  What the tightest reader reads is read on every level, as long
as the lexeme behind it does not bind tighter than the operators of that level.

Readers take fuel.  `Reads` says that a reader gives the same outcome with all
fuel from some amount on, so that the amounts add up along the calls.

Main results:

- Theorem `Spans.length_le`: lexemes in front of a cursor are among its tokens.
- Theorem `climb`: what is read as a sign or a power is read as an operand of every
  level.
- Theorem `expr_of_unary`: it is a whole expression if nothing continues it.
-/

namespace Squishc.Surface

/-! ## Lexemes between cursors -/

/-- The lexemes between two cursors. -/
def Spans : List Lexeme → Cursor → Cursor → Prop
  | [], c, after => c = after
  | l :: rest, c, after => c.lexeme? = some l ∧ Spans rest c.next after

theorem spans_append (ls ms : List Lexeme) {c after : Cursor} :
    Spans (ls ++ ms) c after ↔ ∃ between, Spans ls c between ∧ Spans ms between after := by
  induction ls generalizing c with
  | nil => simp [Spans]
  | cons l rest ih => simp [Spans, ih, and_assoc]

theorem spans_wrap {ls : List Lexeme} {c after : Cursor} (h : Spans (wrap ls) c after) :
    c.lexeme? = some (.symbol .openParen) ∧ ∃ close, Spans ls c.next close ∧
      close.lexeme? = some (.symbol .closeParen) ∧ close.next = after := by
  rcases h with ⟨hopen, hrest⟩
  rcases (spans_append _ _).mp hrest with ⟨close, hinside, hclose, hafter⟩
  exact ⟨hopen, close, hinside, hclose, hafter⟩

namespace Spans

variable {ls : List Lexeme} {c after : Cursor}

theorem inHeader (h : Spans ls c after) : after.inHeader = c.inHeader := by
  induction ls generalizing c with
  | nil => rw [h]
  | cons l rest ih =>
    have hnext := ih h.2
    exact hnext

theorem withHeader (h : Spans ls c after) (mode : Bool) :
    Spans ls (c.withHeader mode) (after.withHeader mode) := by
  induction ls generalizing c with
  | nil => rw [h]; rfl
  | cons l rest ih => exact ⟨h.1, ih h.2⟩

/-- Cursors in front of and behind some lexemes have the same header mode, so it can be
changed in between. -/
theorem withHeader_back (h : Spans ls c after) (mode : Bool) :
    (after.withHeader mode).withHeader c.inHeader = after := by
  show Cursor.mk after.rest c.inHeader = after
  rw [← h.inHeader]

theorem length_le (h : Spans ls c after) : ls.length ≤ c.rest.length := by
  induction ls generalizing c with
  | nil => exact Nat.zero_le _
  | cons l rest ih =>
    have hrest := ih h.2
    cases htokens : c.rest with
    | nil =>
      have hnone := h.1
      simp [Cursor.lexeme?, Cursor.current?, htokens] at hnone
    | cons t ts =>
      simp only [Cursor.next, htokens, List.tail_cons] at hrest
      simp only [List.length_cons]
      omega

end Spans

namespace Cursor

variable {c : Cursor} {l : Lexeme}

theorem isAt_eq (h : c.lexeme? = some l) (t : Terminal) : c.isAt t = t.isMetBy l := by
  rcases Option.map_eq_some_iff.mp h with ⟨tok, htok, rfl⟩
  simp [isAt, htok]

theorem expect_eq (h : c.lexeme? = some l) {t : Terminal} (ht : t.isMetBy l = true) :
    c.expect t = .ok c.next := by
  rw [expect, isAt_eq h, if_pos ht]

theorem expectName_eq {name : String} (h : c.lexeme? = some (.name name)) :
    c.expectName = .ok (name, c.next) := by
  rw [expectName, h]

theorem secondIs_eq (h : c.next.lexeme? = some l) (t : Terminal) : c.secondIs t = t.isMetBy l := by
  rcases Option.map_eq_some_iff.mp h with ⟨tok, htok, rfl⟩
  have hsecond : c.rest[1]? = some tok := by
    rw [← htok]
    simp [current?, next, List.head?_tail]
  simp [secondIs, peek?, hsecond]

end Cursor

/-! ## Readers with fuel -/

/-- A reader gives a good part and stops at a cursor, with all fuel from some
amount on. -/
def Reads {α : Type} (reader : Nat → Reading (α × Cursor)) (least : Nat) (good : α → Prop)
    (after : Cursor) : Prop :=
  ∀ fuel, least ≤ fuel → ∃ a, reader fuel = .ok (a, after) ∧ good a

theorem Reads.mono {α : Type} {reader : Nat → Reading (α × Cursor)} {least more : Nat}
    {good : α → Prop} {after : Cursor} (h : Reads reader least good after) (hle : least ≤ more) :
    Reads reader more good after := by
  intro fuel hfuel
  exact h fuel (Nat.le_trans hle hfuel)

/-- A reader that calls others uses up one unit of fuel. -/
theorem Reads.succ {α : Type} {reader : Nat → Reading (α × Cursor)} {least : Nat}
    {good : α → Prop} {after : Cursor}
    (h : ∀ fuel, least ≤ fuel → ∃ a, reader (fuel + 1) = .ok (a, after) ∧ good a) :
    Reads reader (least + 1) good after := by
  intro fuel hfuel
  cases fuel with
  | zero => omega
  | succ fuel => exact h fuel (by omega)

/-! ## Levels -/

/-- How tightly a lexeme binds what stands before it; zero if it does not continue an
expression. -/
def tightness : Lexeme → Nat
  | .keyword .or_ => 1
  | .keyword .and_ => 2
  | .symbol .lt | .symbol .le | .symbol .eq | .symbol .ne | .symbol .ge | .symbol .gt => 3
  | .symbol .plus | .symbol .minus => 4
  | .symbol .star | .symbol .slash | .symbol .percent => 5
  | .symbol .pow => 6
  | .symbol .openBracket => 7
  | _ => 0

/-- How tightly the operators of a level bind. -/
def Level.rank : Level → Nat
  | disjunction => 1
  | conjunction => 2
  | comparison => 3
  | sum => 4
  | product => 5

theorem Level.op?_eq_none {k : Level} {l : Lexeme} (h : tightness l ≠ k.rank) :
    k.op? l = none := by
  unfold Level.op?
  split
  case h_14 => rfl
  all_goals exact absurd rfl h

theorem isMetBy_of_tightness {mark : Symbol} {l : Lexeme}
    (h : tightness l < tightness (.symbol mark)) : Terminal.isMetBy (.symbol mark) l = false := by
  simp only [Terminal.isMetBy, beq_eq_false_iff_ne]
  rintro rfl
  exact Nat.lt_irrefl _ h

section Readers

open ReadExpr

variable {c after : Cursor} {n : Nat} {good : Expr → Prop} {l : Lexeme}

theorem indexes_stop (hl : c.lexeme? = some l) (ht : tightness l < 7) (fuel : Nat) (e : Expr) :
    indexes (fuel + 1) e c = .ok (e, c) := by
  have hno : c.isAt (.symbol .openBracket) = false := by
    rw [Cursor.isAt_eq hl]
    exact isMetBy_of_tightness ht
  simp [indexes, hno, pure, Except.pure]

theorem levelRest_stop {k : Level} (hl : c.lexeme? = some l) (ht : tightness l ≠ k.rank)
    (fuel : Nat) (e : Expr) : levelRest (fuel + 1) k e c = .ok (e, c) := by
  have hno : c.lexeme?.bind k.op? = none := by
    rw [hl, Option.bind_some, Level.op?_eq_none ht]
  simp [levelRest, hno, pure, Except.pure]

theorem indexed_of_primary (h : Reads (primary · c) (n + 1) good after)
    (hl : after.lexeme? = some l) (ht : tightness l < 7) :
    Reads (indexed · c) (n + 2) good after := by
  apply Reads.succ
  intro fuel hfuel
  rcases h fuel hfuel with ⟨e, he, hgood⟩
  obtain ⟨k, rfl⟩ := Nat.exists_eq_add_of_le' (show 1 ≤ fuel by omega)
  refine ⟨e, ?_, hgood⟩
  simp [indexed, he, bind, Except.bind, indexes_stop hl ht]

theorem power_of_indexed (h : Reads (indexed · c) n good after) (hl : after.lexeme? = some l)
    (ht : tightness l < 6) : Reads (power · c) (n + 1) good after := by
  apply Reads.succ
  intro fuel hfuel
  rcases h fuel hfuel with ⟨e, he, hgood⟩
  have hno : after.isAt (.symbol .pow) = false := by
    rw [Cursor.isAt_eq hl]
    exact isMetBy_of_tightness ht
  refine ⟨e, ?_, hgood⟩
  simp [power, he, bind, Except.bind, hno, pure, Except.pure]

theorem unary_of_power (h : Reads (power · c) n good after)
    (hstart : c.lexeme?.bind signOp? = none) : Reads (unary · c) (n + 1) good after := by
  apply Reads.succ
  intro fuel hfuel
  rcases h fuel hfuel with ⟨e, he, hgood⟩
  refine ⟨e, ?_, hgood⟩
  simp [unary, hstart, he]

theorem operand_of_level {k t : Level} (hk : k.tighter? = some t)
    (h : Reads (level · t c) n good after) : Reads (operand · k c) (n + 1) good after := by
  apply Reads.succ
  intro fuel hfuel
  rcases h fuel hfuel with ⟨e, he, hgood⟩
  refine ⟨e, ?_, hgood⟩
  simp [operand, hk, he]

theorem operand_of_unary (h : Reads (unary · c) n good after) :
    Reads (operand · .product c) (n + 1) good after := by
  apply Reads.succ
  intro fuel hfuel
  rcases h fuel hfuel with ⟨e, he, hgood⟩
  refine ⟨e, ?_, hgood⟩
  simp [operand, Level.tighter?, he]

theorem level_of_operand {k : Level} (h : Reads (operand · k c) (n + 1) good after)
    (hl : after.lexeme? = some l) (ht : tightness l ≠ k.rank) :
    Reads (level · k c) (n + 2) good after := by
  apply Reads.succ
  intro fuel hfuel
  rcases h fuel hfuel with ⟨e, he, hgood⟩
  obtain ⟨m, rfl⟩ := Nat.exists_eq_add_of_le' (show 1 ≤ fuel by omega)
  refine ⟨e, ?_, hgood⟩
  simp [level, he, bind, Except.bind, levelRest_stop hl ht]

theorem level_step {k t : Level} (hk : k.tighter? = some t)
    (h : Reads (level · t c) n good after) (hl : after.lexeme? = some l)
    (ht : tightness l ≠ k.rank) : Reads (level · k c) (n + 2) good after :=
  level_of_operand (operand_of_level hk h) hl ht

/-- What is read as a sign or a power is read as an operand of every level whose
operators bind at least as tightly as the lexeme behind it. -/
theorem climb (h : Reads (unary · c) n good after) (hl : after.lexeme? = some l) (k : Level)
    (ht : tightness l ≤ k.rank) : Reads (operand · k c) (n + 9) good after := by
  have hproduct : tightness l < 5 → Reads (level · .product c) (n + 2) good after := by
    intro hlt
    exact level_of_operand (operand_of_unary h) hl (Nat.ne_of_lt hlt)
  have hsum : tightness l < 4 → Reads (level · .sum c) (n + 4) good after := by
    intro hlt
    exact level_step rfl (hproduct (by omega)) hl (Nat.ne_of_lt hlt)
  have hcomparison : tightness l < 3 → Reads (level · .comparison c) (n + 6) good after := by
    intro hlt
    exact level_step rfl (hsum (by omega)) hl (Nat.ne_of_lt hlt)
  have hconjunction : tightness l < 2 → Reads (level · .conjunction c) (n + 8) good after := by
    intro hlt
    exact level_step rfl (hcomparison (by omega)) hl (Nat.ne_of_lt hlt)
  cases k with
  | product => exact (operand_of_unary h).mono (by omega)
  | sum => exact (operand_of_level rfl (hproduct (by exact Nat.lt_succ_of_le ht))).mono (by omega)
  | comparison => exact (operand_of_level rfl (hsum (Nat.lt_succ_of_le ht))).mono (by omega)
  | conjunction => exact (operand_of_level rfl (hcomparison (Nat.lt_succ_of_le ht))).mono (by omega)
  | disjunction => exact operand_of_level rfl (hconjunction (Nat.lt_succ_of_le ht))

/-- What is read on a level is read on the loosest level if no operator follows. -/
theorem disjunction_of_level {k : Level} (h : Reads (level · k c) n good after)
    (hl : after.lexeme? = some l) (ht : tightness l = 0) :
    Reads (level · .disjunction c) (n + 8) good after := by
  have hne : ∀ k : Level, tightness l ≠ k.rank := by
    intro k
    rw [ht]
    cases k <;> decide
  cases k with
  | disjunction => exact h.mono (by omega)
  | conjunction => exact (level_step rfl h hl (hne _)).mono (by omega)
  | comparison =>
    have hconjunction := level_step (k := .conjunction) rfl h hl (hne _)
    exact (level_step rfl hconjunction hl (hne _)).mono (by omega)
  | sum =>
    have hcomparison := level_step (k := .comparison) rfl h hl (hne _)
    have hconjunction := level_step (k := .conjunction) rfl hcomparison hl (hne _)
    exact (level_step rfl hconjunction hl (hne _)).mono (by omega)
  | product =>
    have hsum := level_step (k := .sum) rfl h hl (hne _)
    have hcomparison := level_step (k := .comparison) rfl hsum hl (hne _)
    have hconjunction := level_step (k := .conjunction) rfl hcomparison hl (hne _)
    exact level_step rfl hconjunction hl (hne _)

theorem expr_of_disjunction (h : Reads (level · .disjunction c) n good after)
    (hl : after.lexeme? = some l) (hif : l ≠ .keyword .if_) :
    Reads (expr · c) (n + 1) good after := by
  apply Reads.succ
  intro fuel hfuel
  rcases h fuel hfuel with ⟨e, he, hgood⟩
  have hno : after.isAt (.keyword .if_) = false := by
    rw [Cursor.isAt_eq hl]
    simpa [Terminal.isMetBy] using hif
  refine ⟨e, ?_, hgood⟩
  simp [expr, he, bind, Except.bind, hno, pure, Except.pure]

/-- What is read as a sign or a power is an expression if nothing continues it. -/
theorem expr_of_unary (h : Reads (unary · c) n good after) (hl : after.lexeme? = some l)
    (ht : tightness l = 0) (hif : l ≠ .keyword .if_) : Reads (expr · c) (n + 11) good after := by
  have hoperand := climb h hl .disjunction (by omega)
  have hlevel := level_of_operand hoperand hl (by rw [ht]; decide)
  exact expr_of_disjunction hlevel hl hif

theorem unary_of_primary (h : Reads (primary · c) (n + 1) good after)
    (hstart : c.lexeme?.bind signOp? = none) (hl : after.lexeme? = some l) (ht : tightness l < 6) :
    Reads (unary · c) (n + 4) good after :=
  unary_of_power (power_of_indexed (indexed_of_primary h hl (by omega)) hl ht) hstart

end Readers

end Squishc.Surface
