import Squishc.Surface.ReadStmt

/-!
# Trees that are read

A surface tree may hold stray parts and integers of any length.  The readers
never produce either: a tree that was read from a source text has a statement
or an expression in every place, and its integers are short enough to be written
again.  The second part rests on the scanner, whose integers consist of digits.

Main results:

- Theorem `tokenize_digital`: the integers among the tokens of a text consist of
  digits.
- Theorems `expr_proper`, `stmt_proper`: what the readers give is proper.
- Theorem `parse_proper`: so is every program that is read from a text.
-/

namespace Squishc

/-! ## Outcomes -/

/-- What is known of the result, if there is one. -/
def Yields {ε α : Type} (r : Except ε α) (good : α → Prop) : Prop :=
  match r with
  | .ok a => good a
  | .error _ => True

namespace Yields

variable {ε α β : Type}

theorem pure {a : α} {good : α → Prop} (h : good a) :
    Yields (Pure.pure a : Except ε α) good := h

theorem error (e : ε) (good : α → Prop) : Yields (.error e) good := trivial

theorem of_ok {r : Except ε α} {good : α → Prop} (h : ∀ a, r = .ok a → good a) :
    Yields r good := by
  cases r with
  | ok a => exact h a rfl
  | error e => trivial

theorem ok {r : Except ε α} {good : α → Prop} {a : α} (h : Yields r good) (hr : r = .ok a) :
    good a := by
  subst hr
  exact h

theorem ite {p : Prop} [Decidable p] {r r' : Except ε α} {good : α → Prop} (h : Yields r good)
    (h' : Yields r' good) : Yields (if p then r else r') good := by
  by_cases hp : p
  · rwa [if_pos hp]
  · rwa [if_neg hp]

/-- Two steps, one after the other. -/
theorem bind {r : Except ε α} {next : α → Except ε β} {mid : α → Prop} {good : β → Prop}
    (hfirst : Yields r mid) (hnext : ∀ a, mid a → Yields (next a) good) :
    Yields (r >>= next) good := by
  cases r with
  | ok a => exact hnext a hfirst
  | error e => trivial

end Yields

/-! ## Integers among the tokens -/

/-- Whether a lexeme is no integer, or one that consists of digits. -/
def Lexeme.digital : Lexeme → Bool
  | int digits => digits.toList.all Char.isDigit
  | _ => true

namespace Scan

theorem number_digital (pos : Pos) (text : List Char) :
    Yields (number pos text) (fun r => r.1.digital = true) := by
  apply Yields.of_ok
  intro r hr
  unfold number at hr
  dsimp only at hr
  split at hr
  · cases hr
  · split at hr
    · cases hr
    · rename_i places _ _ power _ _
      cases hr
      dsimp only
      split
      · -- No fraction and no exponent: the lexeme is the run of digits in front.
        rename_i hempty
        simp only [Bool.and_eq_true, List.isEmpty_iff] at hempty
        rw [hempty.1, hempty.2, Lexeme.digital, String.toList_ofList, List.append_nil,
          List.append_nil]
        exact List.all_takeWhile
      · rfl

theorem word_digital (text : String) : (word text).digital = true := by
  unfold word
  split
  · rfl
  · rfl

/-- The token that a step finds is digital. -/
theorem step_digital (pos : Pos) (c : Char) (rest : List Char) :
    Yields (step pos c rest) (fun found => ∀ t ∈ found.1, t.lexeme.digital = true) := by
  have hone : ∀ {l : Lexeme}, l.digital = true →
      ∀ t ∈ some (Token.mk l pos), t.lexeme.digital = true := by
    intro l hl t ht
    cases ht
    exact hl
  unfold step
  apply Yields.ite
  · simp [Yields]
  apply Yields.ite
  · simp [Yields]
  apply Yields.ite
  · simp [Yields]
  apply Yields.ite
  · split
    · exact Yields.error _ _
    · rename_i hnumber
      exact Yields.pure (hone ((number_digital _ _).ok hnumber))
  apply Yields.ite
  · split
    · exact Yields.error _ _
    · exact Yields.pure (hone rfl)
  apply Yields.ite
  · exact Yields.pure (hone (word_digital _))
  · split
    · exact Yields.pure (hone rfl)
    · exact Yields.error _ _

theorem tokensFrom_digital (pos : Pos) (text : List Char) :
    Yields (tokensFrom pos text) (fun tokens => ∀ t ∈ tokens, t.lexeme.digital = true) := by
  apply Yields.of_ok
  intro tokens htokens
  fun_induction tokensFrom pos text generalizing tokens with
  | case1 pos =>
    cases htokens
    intro t ht
    rw [List.mem_singleton.mp ht]
    rfl
  | case2 | case3 => cases htokens
  | case4 pos c rest found after left hstep others hothers ih =>
    cases htokens
    intro t ht
    rcases List.mem_append.mp ht with hfound | hrest
    · exact (step_digital pos c rest).ok hstep t (Option.mem_toList.mp hfound)
    · exact ih others hothers t hrest

end Scan

/-- The integers among the tokens of a text consist of digits. -/
theorem tokenize_digital (source : String) :
    Yields (tokenize source) (fun tokens => ∀ t ∈ tokens, t.lexeme.digital = true) :=
  Scan.tokensFrom_digital .start source.toList

/-! ## The value of digits -/

theorem Number.digit_le {c : Char} (hc : c.isDigit = true) : c.toNat - '0'.toNat ≤ 9 := by
  simp only [Char.isDigit, ge_iff_le, Bool.and_eq_true, decide_eq_true_eq] at hc
  have hle : c.toNat ≤ '9'.toNat := hc.2
  have hnine : '9'.toNat = 57 := rfl
  have hzero : '0'.toNat = 48 := rfl
  omega

theorem Number.tenTo_succ (n : Nat) : tenTo (n + 1) = 10 * tenTo n := Nat.pow_succ'

theorem Number.tenTo_le {m n : Nat} (h : m ≤ n) : tenTo m ≤ tenTo n :=
  Nat.pow_le_pow_right (by decide) h

/-- Some digits stand for less than one with as many zeros. -/
theorem Number.natOfDigits_lt {digits : List Char} (h : digits.all Char.isDigit = true) :
    natOfDigits digits < tenTo digits.length := by
  -- The digits are read on top of those in front of them.
  have hgeneral : ∀ front : Nat,
      digits.foldl (fun n c => 10 * n + (c.toNat - '0'.toNat)) front
        < (front + 1) * tenTo digits.length := by
    induction digits with
    | nil =>
      intro front
      exact Nat.lt_of_lt_of_eq front.lt_succ_self (Nat.mul_one _).symm
    | cons c rest ih =>
      intro front
      rw [List.all_cons, Bool.and_eq_true] at h
      have hc := digit_le h.1
      calc rest.foldl (fun n c => 10 * n + (c.toNat - '0'.toNat))
            (10 * front + (c.toNat - '0'.toNat))
          < (10 * front + (c.toNat - '0'.toNat) + 1) * tenTo rest.length := ih h.2 _
        _ ≤ ((front + 1) * 10) * tenTo rest.length := Nat.mul_le_mul_right _ (by omega)
        _ = (front + 1) * tenTo (rest.length + 1) := by rw [Nat.mul_assoc, tenTo_succ]
  simpa [natOfDigits] using hgeneral 0

namespace Surface

/-! ## Proper trees -/

mutual

/-- Whether an expression has no stray part, and no integer that is too long to be
written. -/
def Expr.proper : Expr → Bool
  | .int _ value => (Num.int value).writable
  | .float _ _ | .bool _ _ | .string _ _ | .var _ _ => true
  | .array _ elements => Expr.allProper elements
  | .index _ a i => a.proper && i.proper
  | .call _ _ args => Expr.allProper args
  | .unary _ _ operand => operand.proper
  | .binary _ _ left right => left.proper && right.proper
  | .conditional _ consequent test alternate =>
    consequent.proper && (test.proper && alternate.proper)
  | .stray _ => false

/-- Whether some expressions are proper. -/
def Expr.allProper : List Expr → Bool
  | [] => true
  | e :: rest => e.proper && Expr.allProper rest

end

/-- Whether a binding has a proper value. -/
def Binding.proper (b : Binding) : Bool := b.value.proper

mutual

/-- Whether a statement has no stray part, and no integer that is too long to be
written. -/
def Stmt.proper : Stmt → Bool
  | .print _ value => value.proper
  | .declare b | .assign b => b.proper
  | .branch _ test body rest => test.proper && (Stmt.allProper body && rest.proper)
  | .whileLoop _ test body => test.proper && Stmt.allProper body
  | .forLoop _ init test update body =>
    init.proper && (test.proper && (update.proper && Stmt.allProper body))
  | .forEach _ collection _ body => collection.proper && Stmt.allProper body
  | .function _ _ _ body => Stmt.allProper body
  | .exit _ => true
  | .ret _ value => value.all Expr.proper
  | .call _ _ args => Expr.allProper args
  | .stray _ => false

/-- Whether what follows the body of a branch is proper. -/
def Else.proper : Else → Bool
  | .absent => true
  | .body body => Stmt.allProper body
  | .branch _ test body rest => test.proper && (Stmt.allProper body && rest.proper)
  | .stray _ => false

/-- Whether some statements are proper. -/
def Stmt.allProper : List Stmt → Bool
  | [] => true
  | s :: rest => s.proper && Stmt.allProper rest

end

/-! ## Cursors -/

/-- All integers that are still to be read consist of digits. -/
def Cursor.Digital (c : Cursor) : Prop :=
  ∀ t ∈ c.rest, t.lexeme.digital = true

/-- What was read satisfies a test, and the cursor behind it is digital. -/
def Taken {α : Type} (good : α → Bool) (r : α × Cursor) : Prop :=
  good r.1 = true ∧ r.2.Digital

namespace Cursor

variable {c : Cursor}

theorem Digital.next (h : c.Digital) : c.next.Digital :=
  fun t ht => h t (List.mem_of_mem_tail ht)

theorem Digital.withHeader (h : c.Digital) (mode : Bool) : (c.withHeader mode).Digital := h

theorem expect_digital (h : c.Digital) (t : Terminal) : Yields (c.expect t) Digital := by
  unfold expect
  split
  · exact Yields.pure h.next
  · exact Yields.error _ _

theorem expectName_digital (h : c.Digital) :
    Yields c.expectName (Taken fun _ => true) := by
  unfold expectName
  split
  · exact Yields.pure ⟨rfl, h.next⟩
  · exact Yields.error _ _

/-- An integer that the reader accepts can be written. -/
theorem Digital.int_writable (h : c.Digital) {digits : String}
    (hnext : c.lexeme? = some (.int digits)) (hlength : digits.length ≤ digitLimit) :
    (Num.int (Number.natOfDigits digits.toList)).writable = true := by
  unfold lexeme? current? at hnext
  rcases Option.map_eq_some_iff.mp hnext with ⟨t, ht, hlexeme⟩
  have hdigital := h t (List.mem_of_mem_head? ht)
  rw [hlexeme] at hdigital
  rw [← String.length_toList] at hlength
  have hlt : Number.natOfDigits digits.toList < unwritableMagnitude :=
    Nat.lt_of_lt_of_le (Number.natOfDigits_lt hdigital) (Number.tenTo_le hlength)
  simpa [Num.writable] using hlt

end Cursor

/-! ## Expressions -/

namespace ReadExpr

mutual

/-- An expression that is read is proper. -/
theorem expr_proper : ∀ (fuel : Nat) {c : Cursor}, c.Digital →
    Yields (expr fuel c) (Taken Expr.proper)
  | 0, _, _ => Yields.error _ _
  | fuel + 1, c, hc => by
    rw [expr]
    apply (level_proper fuel .disjunction hc).bind
    intro ⟨e, c⟩ ⟨he, hc⟩
    dsimp only
    split
    · apply (level_proper fuel .disjunction hc.next).bind
      intro ⟨test, c⟩ ⟨htest, hc⟩
      apply (Cursor.expect_digital hc _).bind
      intro c hc
      apply (expr_proper fuel hc).bind
      intro ⟨alternate, c⟩ ⟨halternate, hc⟩
      refine Yields.pure ⟨?_, hc⟩
      simp [Expr.proper, he, htest, halternate]
    · exact Yields.pure ⟨he, hc⟩

theorem nested_proper : ∀ (fuel : Nat) {c : Cursor}, c.Digital →
    Yields (nested fuel c) (Taken Expr.proper)
  | 0, _, _ => Yields.error _ _
  | fuel + 1, c, hc => by
    rw [nested]
    apply (expr_proper fuel (hc.withHeader false)).bind
    intro ⟨e, after⟩ ⟨he, hafter⟩
    exact Yields.pure ⟨he, hafter.withHeader c.inHeader⟩

theorem level_proper : ∀ (fuel : Nat) (l : Level) {c : Cursor}, c.Digital →
    Yields (level fuel l c) (Taken Expr.proper)
  | 0, _, _, _ => Yields.error _ _
  | fuel + 1, l, c, hc => by
    rw [level]
    apply (operand_proper fuel l hc).bind
    intro ⟨left, c⟩ ⟨hleft, hc⟩
    exact levelRest_proper fuel l hleft hc

theorem operand_proper : ∀ (fuel : Nat) (l : Level) {c : Cursor}, c.Digital →
    Yields (operand fuel l c) (Taken Expr.proper)
  | 0, _, _, _ => Yields.error _ _
  | fuel + 1, l, c, hc => by
    rw [operand]
    split
    · exact level_proper fuel _ hc
    · exact unary_proper fuel hc

theorem levelRest_proper : ∀ (fuel : Nat) (l : Level) {left : Expr} {c : Cursor},
    left.proper = true → c.Digital → Yields (levelRest fuel l left c) (Taken Expr.proper)
  | 0, _, _, _, _, _ => Yields.error _ _
  | fuel + 1, l, left, c, hleft, hc => by
    rw [levelRest]
    split
    · exact Yields.pure ⟨hleft, hc⟩
    · rename_i op _
      apply (operand_proper fuel l hc.next).bind
      intro ⟨right, c⟩ ⟨hright, hc⟩
      have hboth : (Expr.binary left.pos op left right).proper = true := by
        simp [Expr.proper, hleft, hright]
      dsimp only
      split
      · exact levelRest_proper fuel l hboth hc
      · exact Yields.pure ⟨hboth, hc⟩

theorem unary_proper : ∀ (fuel : Nat) {c : Cursor}, c.Digital →
    Yields (unary fuel c) (Taken Expr.proper)
  | 0, _, _ => Yields.error _ _
  | fuel + 1, c, hc => by
    rw [unary]
    split
    · apply (unary_proper fuel hc.next).bind
      intro ⟨e, after⟩ ⟨he, hafter⟩
      exact Yields.pure ⟨he, hafter⟩
    · exact power_proper fuel hc

theorem power_proper : ∀ (fuel : Nat) {c : Cursor}, c.Digital →
    Yields (power fuel c) (Taken Expr.proper)
  | 0, _, _ => Yields.error _ _
  | fuel + 1, c, hc => by
    rw [power]
    apply (indexed_proper fuel hc).bind
    intro ⟨base, c⟩ ⟨hbase, hc⟩
    dsimp only
    split
    · apply (unary_proper fuel hc.next).bind
      intro ⟨e, c⟩ ⟨he, hc⟩
      refine Yields.pure ⟨?_, hc⟩
      simp [Expr.proper, hbase, he]
    · exact Yields.pure ⟨hbase, hc⟩

theorem indexed_proper : ∀ (fuel : Nat) {c : Cursor}, c.Digital →
    Yields (indexed fuel c) (Taken Expr.proper)
  | 0, _, _ => Yields.error _ _
  | fuel + 1, c, hc => by
    rw [indexed]
    apply (primary_proper fuel hc).bind
    intro ⟨e, c⟩ ⟨he, hc⟩
    exact indexes_proper fuel he hc

theorem indexes_proper : ∀ (fuel : Nat) {e : Expr} {c : Cursor}, e.proper = true → c.Digital →
    Yields (indexes fuel e c) (Taken Expr.proper)
  | 0, _, _, _, _ => Yields.error _ _
  | fuel + 1, e, c, he, hc => by
    rw [indexes]
    split
    · apply (nested_proper fuel hc.next).bind
      intro ⟨i, c⟩ ⟨hi, hc⟩
      apply (Cursor.expect_digital hc _).bind
      intro c hc
      have hboth : (Expr.index e.pos e i).proper = true := by simp [Expr.proper, he, hi]
      exact indexes_proper fuel hboth hc
    · exact Yields.pure ⟨he, hc⟩

theorem primary_proper : ∀ (fuel : Nat) {c : Cursor}, c.Digital →
    Yields (primary fuel c) (Taken Expr.proper)
  | 0, _, _ => Yields.error _ _
  | fuel + 1, c, hc => by
    rw [primary]
    split
    · rename_i hnext
      split
      · rename_i hlength
        exact Yields.pure ⟨hc.int_writable hnext hlength, hc.next⟩
      · exact Yields.error _ _
    · exact Yields.pure ⟨rfl, hc.next⟩
    · exact Yields.pure ⟨rfl, hc.next⟩
    · exact Yields.pure ⟨rfl, hc.next⟩
    · exact Yields.pure ⟨rfl, hc.next⟩
    · split
      · apply (call_proper fuel hc).bind
        intro ⟨⟨callee, args⟩, after⟩ ⟨hargs, hafter⟩
        exact Yields.pure ⟨hargs, hafter⟩
      · exact Yields.pure ⟨rfl, hc.next⟩
    · apply (nested_proper fuel hc.next).bind
      intro ⟨e, c⟩ ⟨he, hc⟩
      apply (Cursor.expect_digital hc _).bind
      intro c hc
      exact Yields.pure ⟨he, hc⟩
    · exact brackets_proper fuel hc
    · exact Yields.error _ _

theorem call_proper : ∀ (fuel : Nat) {c : Cursor}, c.Digital →
    Yields (call fuel c) (Taken fun r => Expr.allProper r.2)
  | 0, _, _ => Yields.error _ _
  | fuel + 1, c, hc => by
    rw [call]
    apply (Cursor.expectName_digital hc).bind
    intro ⟨callee, c⟩ ⟨_, hc⟩
    apply (Cursor.expect_digital hc _).bind
    intro c hc
    dsimp only
    split
    · apply (expr_proper fuel hc).bind
      intro ⟨first, c⟩ ⟨hfirst, hc⟩
      apply (arguments_proper fuel hc).bind
      intro ⟨others, c⟩ ⟨hothers, hc⟩
      refine Yields.pure ⟨?_, hc⟩
      simp [Expr.allProper, hfirst, hothers]
    · exact Yields.pure ⟨rfl, hc⟩

theorem arguments_proper : ∀ (fuel : Nat) {c : Cursor}, c.Digital →
    Yields (arguments fuel c) (Taken Expr.allProper)
  | 0, _, _ => Yields.error _ _
  | fuel + 1, c, hc => by
    rw [arguments]
    split
    · apply (expr_proper fuel hc.next).bind
      intro ⟨e, c⟩ ⟨he, hc⟩
      apply (arguments_proper fuel hc).bind
      intro ⟨others, c⟩ ⟨hothers, hc⟩
      refine Yields.pure ⟨?_, hc⟩
      simp [Expr.allProper, he, hothers]
    · exact Yields.pure ⟨rfl, hc⟩

theorem brackets_proper : ∀ (fuel : Nat) {c : Cursor}, c.Digital →
    Yields (brackets fuel c) (Taken Expr.proper)
  | 0, _, _ => Yields.error _ _
  | fuel + 1, c, hc => by
    rw [brackets]
    apply (Cursor.expect_digital hc _).bind
    intro c hc
    dsimp only
    split
    · exact Yields.pure ⟨rfl, hc.next⟩
    · apply (nested_proper fuel hc).bind
      intro ⟨first, c⟩ ⟨hfirst, hc⟩
      dsimp only
      split
      · apply (elements_proper fuel true hc).bind
        intro ⟨others, c⟩ ⟨hothers, hc⟩
        apply (Cursor.expect_digital hc _).bind
        intro c hc
        refine Yields.pure ⟨?_, hc⟩
        simp [Expr.proper, Expr.allProper, hfirst, hothers]
      · apply (Cursor.expect_digital hc _).bind
        intro c hc
        exact Yields.pure ⟨hfirst, hc⟩

theorem elements_proper : ∀ (fuel : Nat) (single : Bool) {c : Cursor}, c.Digital →
    Yields (elements fuel single c) (Taken Expr.allProper)
  | 0, _, _, _ => Yields.error _ _
  | fuel + 1, single, c, hc => by
    rw [elements]
    split
    · split
      · exact Yields.pure ⟨rfl, hc.next⟩
      · apply (nested_proper fuel hc.next).bind
        intro ⟨e, c⟩ ⟨he, hc⟩
        apply (elements_proper fuel false hc).bind
        intro ⟨others, c⟩ ⟨hothers, hc⟩
        refine Yields.pure ⟨?_, hc⟩
        simp [Expr.allProper, he, hothers]
    · exact Yields.pure ⟨rfl, hc⟩

end

end ReadExpr

/-! ## Statements of one line -/

namespace Cursor

variable {c : Cursor}

theorem headerExpr_proper (h : c.Digital) : Yields c.headerExpr (Taken Expr.proper) := by
  unfold headerExpr
  apply (ReadExpr.expr_proper _ (h.withHeader true)).bind
  intro ⟨e, after⟩ ⟨he, hafter⟩
  exact Yields.pure ⟨he, hafter.withHeader c.inHeader⟩

theorem bindingRest_proper (h : c.Digital) (start : Pos) (name : String) :
    Yields (c.bindingRest start name) (Taken Binding.proper) := by
  unfold bindingRest
  apply (expect_digital h _).bind
  intro c hc
  apply (ReadExpr.expr_proper _ hc).bind
  intro ⟨value, c⟩ ⟨hvalue, hc⟩
  apply (expect_digital hc _).bind
  intro c hc
  exact Yields.pure ⟨hvalue, hc⟩

theorem declaration_proper (h : c.Digital) : Yields c.declaration (Taken Binding.proper) := by
  unfold declaration
  apply (expect_digital h _).bind
  intro c hc
  apply (expectName_digital hc).bind
  intro ⟨name, c⟩ ⟨_, hc⟩
  exact bindingRest_proper hc _ name

theorem assignment_proper (h : c.Digital) : Yields c.assignment (Taken Binding.proper) := by
  unfold assignment
  apply (expectName_digital h).bind
  intro ⟨name, c⟩ ⟨_, hc⟩
  exact bindingRest_proper hc _ name

theorem print_proper (h : c.Digital) : Yields c.print (Taken Stmt.proper) := by
  unfold print
  apply (expect_digital h _).bind
  intro c hc
  apply (ReadExpr.expr_proper _ hc).bind
  intro ⟨value, c⟩ ⟨hvalue, hc⟩
  apply (expect_digital hc _).bind
  intro c hc
  exact Yields.pure ⟨hvalue, hc⟩

theorem exit_proper (h : c.Digital) : Yields c.exit (Taken Stmt.proper) := by
  unfold exit
  apply (expect_digital h _).bind
  intro c hc
  apply (expect_digital hc _).bind
  intro c hc
  exact Yields.pure ⟨rfl, hc⟩

theorem ret_proper (h : c.Digital) : Yields c.ret (Taken Stmt.proper) := by
  unfold ret
  apply (expect_digital h _).bind
  intro c hc
  dsimp only
  split
  · exact Yields.pure ⟨rfl, hc.next⟩
  · apply (ReadExpr.expr_proper _ hc).bind
    intro ⟨value, c⟩ ⟨hvalue, hc⟩
    apply (expect_digital hc _).bind
    intro c hc
    exact Yields.pure ⟨hvalue, hc⟩

theorem callStmt_proper (h : c.Digital) : Yields c.callStmt (Taken Stmt.proper) := by
  unfold callStmt
  apply (ReadExpr.call_proper _ h).bind
  intro ⟨⟨callee, args⟩, c⟩ ⟨hargs, hc⟩
  apply (expect_digital hc _).bind
  intro c hc
  exact Yields.pure ⟨hargs, hc⟩

theorem param_digital (h : c.Digital) : Yields c.param (Taken fun _ => true) := by
  unfold param
  apply (expectName_digital h).bind
  intro ⟨name, c⟩ ⟨_, hc⟩
  exact Yields.pure ⟨rfl, hc⟩

end Cursor

/-! ## Statements with bodies -/

namespace ReadStmt

theorem moreParams_digital (fuel : Nat) {c : Cursor} (hc : c.Digital) :
    Yields (moreParams fuel c) (Taken fun _ => true) := by
  induction fuel generalizing c with
  | zero => exact Yields.error _ _
  | succ fuel ih =>
    rw [moreParams]
    split
    · apply (Cursor.param_digital hc.next).bind
      intro ⟨p, c⟩ ⟨_, hc⟩
      apply (ih hc).bind
      intro ⟨others, c⟩ ⟨_, hc⟩
      exact Yields.pure ⟨rfl, hc⟩
    · exact Yields.pure ⟨rfl, hc⟩

theorem params_digital {c : Cursor} (hc : c.Digital) : Yields (params c) (Taken fun _ => true) := by
  unfold params
  split
  · apply (Cursor.param_digital hc).bind
    intro ⟨p, c⟩ ⟨_, hc⟩
    apply (moreParams_digital _ hc).bind
    intro ⟨others, c⟩ ⟨_, hc⟩
    exact Yields.pure ⟨rfl, hc⟩
  · exact Yields.pure ⟨rfl, hc⟩

mutual

/-- A statement that is read is proper. -/
theorem stmt_proper : ∀ (fuel : Nat) {c : Cursor}, c.Digital →
    Yields (stmt fuel c) (Taken Stmt.proper)
  | 0, _, _ => Yields.error _ _
  | fuel + 1, c, hc => by
    rw [stmt]
    apply Yields.ite
    · exact Cursor.print_proper hc
    apply Yields.ite
    · apply (Cursor.declaration_proper hc).bind
      intro ⟨b, c⟩ ⟨hb, hc⟩
      exact Yields.pure ⟨hb, hc⟩
    apply Yields.ite
    · apply (branch_proper fuel hc).bind
      intro ⟨⟨test, body, rest⟩, after⟩ ⟨hparts, hafter⟩
      exact Yields.pure ⟨hparts, hafter⟩
    apply Yields.ite
    · exact whileLoop_proper fuel hc
    apply Yields.ite
    · exact forLoop_proper fuel hc
    apply Yields.ite
    · exact function_proper fuel hc
    apply Yields.ite
    · exact Cursor.exit_proper hc
    apply Yields.ite
    · exact Cursor.ret_proper hc
    apply Yields.ite
    · apply (Cursor.assignment_proper hc).bind
      intro ⟨b, c⟩ ⟨hb, hc⟩
      exact Yields.pure ⟨hb, hc⟩
    apply Yields.ite
    · exact Cursor.callStmt_proper hc
    · exact forEach_proper fuel hc

theorem stmtsUntil_proper : ∀ (fuel : Nat) (terminals : List Terminal) {c : Cursor}, c.Digital →
    Yields (stmtsUntil fuel terminals c) (Taken Stmt.allProper)
  | 0, _, _, _ => Yields.error _ _
  | fuel + 1, terminals, c, hc => by
    rw [stmtsUntil]
    split
    · exact Yields.pure ⟨rfl, hc⟩
    split
    · exact Yields.error _ _
    · apply (stmt_proper fuel hc).bind
      intro ⟨s, c⟩ ⟨hs, hc⟩
      apply (stmtsUntil_proper fuel terminals hc).bind
      intro ⟨others, c⟩ ⟨hothers, hc⟩
      refine Yields.pure ⟨?_, hc⟩
      simp [Stmt.allProper, hs, hothers]

theorem block_proper : ∀ (fuel : Nat) {c : Cursor}, c.Digital →
    Yields (block fuel c) (Taken Stmt.allProper)
  | 0, _, _ => Yields.error _ _
  | fuel + 1, c, hc => by
    rw [block]
    apply (stmtsUntil_proper fuel _ hc).bind
    intro ⟨body, c⟩ ⟨hbody, hc⟩
    apply (Cursor.expect_digital hc _).bind
    intro c hc
    exact Yields.pure ⟨hbody, hc⟩

theorem branch_proper : ∀ (fuel : Nat) {c : Cursor}, c.Digital →
    Yields (branch fuel c)
      (Taken fun r => r.1.proper && (Stmt.allProper r.2.1 && r.2.2.proper))
  | 0, _, _ => Yields.error _ _
  | fuel + 1, c, hc => by
    rw [branch]
    apply (Cursor.expect_digital hc _).bind
    intro c hc
    apply (Cursor.headerExpr_proper hc).bind
    intro ⟨test, c⟩ ⟨htest, hc⟩
    apply (Cursor.expect_digital hc _).bind
    intro c hc
    apply (stmtsUntil_proper fuel _ hc).bind
    intro ⟨body, c⟩ ⟨hbody, hc⟩
    dsimp only
    -- A `stop` in front of `else` is passed over.
    have hpassed : (if (c.isAt (.keyword .stop) && c.secondIs (.keyword .else_)) = true
        then c.next else c).Digital := by
      split
      · exact hc.next
      · exact hc
    generalize (if (c.isAt (.keyword .stop) && c.secondIs (.keyword .else_)) = true
      then c.next else c) = c at hpassed ⊢
    split
    · split
      · apply (branch_proper fuel hpassed.next).bind
        intro ⟨⟨test', body', rest⟩, after⟩ ⟨hparts, hafter⟩
        refine Yields.pure ⟨?_, hafter⟩
        simp [Else.proper, htest, hbody, hparts]
      · apply (block_proper fuel hpassed.next).bind
        intro ⟨closing, c⟩ ⟨hclosing, hc⟩
        refine Yields.pure ⟨?_, hc⟩
        simp [Else.proper, htest, hbody, hclosing]
    · apply (Cursor.expect_digital hpassed _).bind
      intro c hc
      refine Yields.pure ⟨?_, hc⟩
      simp [Else.proper, htest, hbody]

theorem whileLoop_proper : ∀ (fuel : Nat) {c : Cursor}, c.Digital →
    Yields (whileLoop fuel c) (Taken Stmt.proper)
  | 0, _, _ => Yields.error _ _
  | fuel + 1, c, hc => by
    rw [whileLoop]
    apply (Cursor.expect_digital hc _).bind
    intro c hc
    apply (Cursor.headerExpr_proper hc).bind
    intro ⟨test, c⟩ ⟨htest, hc⟩
    apply (Cursor.expect_digital hc _).bind
    intro c hc
    apply (block_proper fuel hc).bind
    intro ⟨body, c⟩ ⟨hbody, hc⟩
    refine Yields.pure ⟨?_, hc⟩
    simp [Stmt.proper, htest, hbody]

theorem forLoop_proper : ∀ (fuel : Nat) {c : Cursor}, c.Digital →
    Yields (forLoop fuel c) (Taken Stmt.proper)
  | 0, _, _ => Yields.error _ _
  | fuel + 1, c, hc => by
    rw [forLoop]
    apply (Cursor.expect_digital hc _).bind
    intro c hc
    apply (Cursor.declaration_proper hc).bind
    intro ⟨init, c⟩ ⟨hinit, hc⟩
    apply (Cursor.expect_digital hc _).bind
    intro c hc
    apply (Cursor.headerExpr_proper hc).bind
    intro ⟨test, c⟩ ⟨htest, hc⟩
    apply (Cursor.expect_digital hc _).bind
    intro c hc
    apply (Cursor.assignment_proper hc).bind
    intro ⟨update, c⟩ ⟨hupdate, hc⟩
    apply (block_proper fuel hc).bind
    intro ⟨body, c⟩ ⟨hbody, hc⟩
    refine Yields.pure ⟨?_, hc⟩
    simp [Stmt.proper, hinit, htest, hupdate, hbody]

theorem forEach_proper : ∀ (fuel : Nat) {c : Cursor}, c.Digital →
    Yields (forEach fuel c) (Taken Stmt.proper)
  | 0, _, _ => Yields.error _ _
  | fuel + 1, c, hc => by
    rw [forEach]
    apply (ReadExpr.indexed_proper _ (hc.withHeader true)).bind
    intro ⟨collection, after⟩ ⟨hcollection, hafter⟩
    apply (Cursor.expect_digital (hafter.withHeader c.inHeader) _).bind
    intro c hc
    apply (Cursor.expect_digital hc _).bind
    intro c hc
    apply (Cursor.expectName_digital hc).bind
    intro ⟨name, c⟩ ⟨_, hc⟩
    apply (Cursor.expect_digital hc _).bind
    intro c hc
    apply (block_proper fuel hc).bind
    intro ⟨body, c⟩ ⟨hbody, hc⟩
    refine Yields.pure ⟨?_, hc⟩
    simp [Stmt.proper, hcollection, hbody]

theorem function_proper : ∀ (fuel : Nat) {c : Cursor}, c.Digital →
    Yields (function fuel c) (Taken Stmt.proper)
  | 0, _, _ => Yields.error _ _
  | fuel + 1, c, hc => by
    rw [function]
    apply (Cursor.expect_digital hc _).bind
    intro c hc
    apply (Cursor.expectName_digital hc).bind
    intro ⟨name, c⟩ ⟨_, hc⟩
    apply (params_digital hc).bind
    intro ⟨parameters, c⟩ ⟨_, hc⟩
    apply (Cursor.expect_digital hc _).bind
    intro c hc
    apply (block_proper fuel hc).bind
    intro ⟨body, c⟩ ⟨hbody, hc⟩
    exact Yields.pure ⟨hbody, hc⟩

end

theorem stmts_proper (fuel : Nat) {c : Cursor} (hc : c.Digital) :
    Yields (stmts fuel c) (Taken Stmt.allProper) := by
  induction fuel generalizing c with
  | zero => exact Yields.error _ _
  | succ fuel ih =>
    rw [stmts]
    split
    · exact Yields.pure ⟨rfl, hc⟩
    · apply (stmt_proper _ hc).bind
      intro ⟨s, c⟩ ⟨hs, hc⟩
      apply (ih hc).bind
      intro ⟨others, c⟩ ⟨hothers, hc⟩
      refine Yields.pure ⟨?_, hc⟩
      simp [Stmt.allProper, hs, hothers]

end ReadStmt

/-! ## Programs -/

/-- A program that is read from a text has no stray part, and no integer that is
too long to be written. -/
theorem parse_proper {source : String} {p : Program} (h : parse source = .ok p) :
    Stmt.allProper p.statements = true := by
  unfold parse at h
  split at h
  · cases h
  · rename_i tokens htokens
    have hdigital : (Cursor.ofTokens tokens).Digital := (tokenize_digital source).ok htokens
    split at h
    · cases h
    · rename_i program after hread
      cases h
      have hprogram : Yields (Cursor.ofTokens tokens).program
          (Taken fun p => Stmt.allProper p.statements) := by
        unfold Cursor.program
        apply (ReadStmt.stmts_proper _ hdigital).bind
        intro ⟨statements, c⟩ ⟨hstatements, hc⟩
        exact Yields.pure ⟨hstatements, hc⟩
      exact (hprogram.ok hread).1

end Surface

end Squishc
