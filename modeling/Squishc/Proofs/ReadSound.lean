import Squishc.Proofs.Grammar
import Squishc.Proofs.ReadPrinted
import Squishc.Proofs.ReadTree

/-!
# What is read is derived

Every reader takes some tokens off the front and gives a tree that the grammar
derives from exactly these tokens.  The header mode is the same in front of them
and behind them, and it decides whether a name with a colon behind it is a call.

Main results:

- Theorem `expr_derived`: what is read as an expression is derived as one.
- Theorem `stmt_derived`: what is read as a statement is derived as one.
- Theorem `read_derives`: so it is for every reader, from every cursor.
-/

namespace Squishc.Surface

open Grammar

/-! ## Tokens off the front -/

/-- What was read is derived from the tokens between the two cursors. -/
def Derived {α : Type} (c : Cursor) (derives : List Token → α → Prop) (r : α × Cursor) : Prop :=
  ∃ ts, c = ⟨ts ++ r.2.rest, r.2.inHeader⟩ ∧ derives ts r.1

namespace Cursor

variable {c : Cursor}

theorem lexeme?_cons (t : Token) (rest : List Token) (mode : Bool) :
    (Cursor.mk (t :: rest) mode).lexeme? = some t.lexeme := rfl

theorem exists_of_lexeme? {l : Lexeme} (h : c.lexeme? = some l) :
    ∃ t rest mode, c = ⟨t :: rest, mode⟩ ∧ t.lexeme = l := by
  rcases c with ⟨_ | ⟨t, rest⟩, mode⟩
  · cases h
  · exact ⟨t, rest, mode, rfl, Option.some.inj h⟩

theorem exists_of_isAt {terminal : Terminal} (h : c.isAt terminal = true) :
    ∃ t rest mode, c = ⟨t :: rest, mode⟩ ∧ terminal.isMetBy t.lexeme = true := by
  rcases c with ⟨_ | ⟨t, rest⟩, mode⟩
  · cases h
  · exact ⟨t, rest, mode, rfl, h⟩

theorem expect_took (c : Cursor) (terminal : Terminal) :
    Yields (c.expect terminal)
      (fun after => ∃ t, c = ⟨t :: after.rest, after.inHeader⟩ ∧
        terminal.isMetBy t.lexeme = true) := by
  unfold expect
  split
  · rename_i hat
    obtain ⟨t, rest, mode, rfl, ht⟩ := exists_of_isAt hat
    exact Yields.pure ⟨t, rfl, ht⟩
  · exact Yields.error _ _

theorem expectName_took (c : Cursor) :
    Yields c.expectName
      (fun r => ∃ t, c = ⟨t :: r.2.rest, r.2.inHeader⟩ ∧ t.lexeme = .name r.1) := by
  unfold expectName
  split
  · rename_i hat
    obtain ⟨t, rest, mode, rfl, ht⟩ := exists_of_lexeme? hat
    exact Yields.pure ⟨t, rfl, ht⟩
  · exact Yields.error _ _

end Cursor

/-! ## Levels -/

/-- What a level derives. -/
def Level.Derives : Level → Bool → List Token → Expr → Prop
  | disjunction => IsOr
  | conjunction => IsAnd
  | comparison => IsCompare
  | sum => IsSum
  | product => IsProduct

/-- What an operand of a level derives. -/
def Level.OperandDerives : Level → Bool → List Token → Expr → Prop
  | disjunction => IsAnd
  | conjunction => IsCompare
  | comparison => IsSum
  | sum => IsProduct
  | product => IsUnary

namespace Level

variable {l tight : Level} {header : Bool} {ts us : List Token} {mark : Token} {op : Op}
  {left right e : Expr}

theorem derives_of_operand (h : l.OperandDerives header ts e) : l.Derives header ts e := by
  cases l with
  | disjunction => exact IsOr.plain h
  | conjunction => exact IsAnd.plain h
  | comparison => exact IsCompare.plain h
  | sum => exact IsSum.plain h
  | product => exact IsProduct.plain h

theorem operandDerives_of_tighter (hl : l.tighter? = some tight)
    (h : tight.Derives header ts e) : l.OperandDerives header ts e := by
  cases l <;> cases hl <;> exact h

theorem eq_product_of_tighter? (h : l.tighter? = none) : l = product := by
  cases l with
  | product => rfl
  | _ => cases h

/-- The lexeme of an operator and the level it belongs to. -/
theorem op?_eq_some {x : Lexeme} (h : l.op? x = some op) :
    (l = disjunction ∧ x = .keyword .or_ ∧ op = .disj) ∨
    (l = conjunction ∧ x = .keyword .and_ ∧ op = .conj) ∨
    (l = comparison ∧ CompareOp x op) ∨ (l = sum ∧ SumOp x op) ∨
    (l = product ∧ ProductOp x op) := by
  unfold op? at h
  split at h <;> cases h
  · exact .inl ⟨rfl, rfl, rfl⟩
  · exact .inr (.inl ⟨rfl, rfl, rfl⟩)
  · exact .inr (.inr (.inl ⟨rfl, .lt⟩))
  · exact .inr (.inr (.inl ⟨rfl, .le⟩))
  · exact .inr (.inr (.inl ⟨rfl, .eq⟩))
  · exact .inr (.inr (.inl ⟨rfl, .ne⟩))
  · exact .inr (.inr (.inl ⟨rfl, .ge⟩))
  · exact .inr (.inr (.inl ⟨rfl, .gt⟩))
  · exact .inr (.inr (.inr (.inl ⟨rfl, .plus⟩)))
  · exact .inr (.inr (.inr (.inl ⟨rfl, .minus⟩)))
  · exact .inr (.inr (.inr (.inr ⟨rfl, .star⟩)))
  · exact .inr (.inr (.inr (.inr ⟨rfl, .slash⟩)))
  · exact .inr (.inr (.inr (.inr ⟨rfl, .percent⟩)))

/-- An operator of a level that chains continues what the level derives. -/
theorem derives_chain (hchains : l.chains = true) (hop : l.op? mark.lexeme = some op)
    (hleft : l.Derives header ts left) (hright : l.OperandDerives header us right) :
    l.Derives header (ts ++ mark :: us) (.binary left.pos op left right) := by
  rcases op?_eq_some hop with ⟨rfl, hmark, rfl⟩ | ⟨rfl, hmark, rfl⟩ | ⟨rfl, -⟩ | ⟨rfl, hmark⟩ |
    ⟨rfl, hmark⟩
  · exact IsOr.chain hleft hmark hright
  · exact IsAnd.chain hleft hmark hright
  · cases hchains
  · exact IsSum.chain hleft hmark hright
  · exact IsProduct.chain hleft hmark hright

/-- An operator of a level that does not chain relates two operands. -/
theorem derives_pair (hchains : l.chains = false) (hop : l.op? mark.lexeme = some op)
    (hleft : l.OperandDerives header ts left) (hright : l.OperandDerives header us right) :
    l.Derives header (ts ++ mark :: us) (.binary left.pos op left right) := by
  rcases op?_eq_some hop with ⟨rfl, -⟩ | ⟨rfl, -⟩ | ⟨rfl, hmark⟩ | ⟨rfl, -⟩ | ⟨rfl, -⟩
  · cases hchains
  · cases hchains
  · exact IsCompare.pair hleft hmark hright
  · cases hchains
  · cases hchains

end Level

theorem signOp_of_signOp? {x : Lexeme} {op : Op} (h : signOp? x = some op) : SignOp x op := by
  unfold signOp? at h
  split at h <;> cases h
  · exact .minus
  · exact .bang

/-! ## Expressions -/

namespace ReadExpr

/-- What stands behind a first expression continues it to a list. -/
def Continues (header : Bool) (us : List Token) (others : List Expr) : Prop :=
  ∀ ts e, IsExpr header ts e → IsExprs header (ts ++ us) (e :: others)

theorem continues_nil (header : Bool) : Continues header [] [] := by
  intro ts e he
  rw [List.append_nil]
  exact .one he

theorem continues_cons {header : Bool} {comma : Token} {ts us : List Token} {e : Expr}
    {others : List Expr} (hcomma : comma.lexeme = .symbol .comma) (he : IsExpr header ts e)
    (hothers : Continues header us others) :
    Continues header (comma :: (ts ++ us)) (e :: others) := by
  intro ts' e' he'
  exact .more he' hcomma (hothers ts e he)

/-- What stands behind the first element of an array: further elements, or the comma
that makes an array of a single element. -/
def ContinuesArray (single : Bool) (us : List Token) (others : List Expr) : Prop :=
  (single = true ∧ others = [] ∧ ∃ comma : Token, us = [comma] ∧ comma.lexeme = .symbol .comma) ∨
  (Continues false us others ∧ (us ≠ [] → others ≠ []))

/-- The operators of a level behind what stands in front of them. -/
def ContinuesLevel (l : Level) (header : Bool) (left : Expr) (us : List Token) (e : Expr) : Prop :=
  ∀ ts, (if l.chains then l.Derives header ts left else l.OperandDerives header ts left) →
    l.Derives header (ts ++ us) e

/-- The indexes behind an expression. -/
def ContinuesPostfix (header : Bool) (front : Expr) (us : List Token) (e : Expr) : Prop :=
  ∀ ts, IsPostfix header ts front → IsPostfix header (ts ++ us) e

mutual

/-- What is read as an expression is derived as one. -/
theorem expr_derived : ∀ (fuel : Nat) (c : Cursor),
    Yields (expr fuel c) (Derived c (IsExpr c.inHeader))
  | 0, _ => Yields.error _ _
  | fuel + 1, c => by
    rw [expr]
    apply (level_derived fuel .disjunction c).bind
    rintro ⟨e, c⟩ ⟨ts, rfl, he⟩
    dsimp only
    split
    · rename_i hat
      obtain ⟨if_, rest, mode, rfl, hif⟩ := Cursor.exists_of_isAt hat
      apply (level_derived fuel .disjunction ⟨rest, mode⟩).bind
      rintro ⟨test, c⟩ ⟨us, hc, htest⟩
      cases hc
      apply (Cursor.expect_took _ _).bind
      rintro c ⟨otherwise, rfl, hotherwise⟩
      apply (expr_derived fuel c).bind
      rintro ⟨alternate, c⟩ ⟨vs, rfl, halternate⟩
      refine Yields.pure ⟨ts ++ if_ :: (us ++ otherwise :: vs), by simp, ?_⟩
      exact .conditional he (eq_of_beq hif) htest (eq_of_beq hotherwise) halternate
    · exact Yields.pure ⟨ts, rfl, .plain he⟩

theorem nested_derived : ∀ (fuel : Nat) (c : Cursor),
    Yields (nested fuel c) (Derived c (IsExpr false))
  | 0, _ => Yields.error _ _
  | fuel + 1, ⟨rest, mode⟩ => by
    rw [nested]
    apply (expr_derived fuel ⟨rest, false⟩).bind
    rintro ⟨e, ⟨left, _⟩⟩ ⟨ts, hc, he⟩
    cases hc
    exact Yields.pure ⟨ts, rfl, he⟩

theorem level_derived : ∀ (fuel : Nat) (l : Level) (c : Cursor),
    Yields (level fuel l c) (Derived c (l.Derives c.inHeader))
  | 0, _, _ => Yields.error _ _
  | fuel + 1, l, c => by
    rw [level]
    apply (operand_derived fuel l c).bind
    rintro ⟨left, c⟩ ⟨ts, rfl, hleft⟩
    apply Yields.of_ok
    intro r hr
    obtain ⟨us, rfl, he⟩ := (levelRest_derived fuel l left c).ok hr
    refine ⟨ts ++ us, by simp, he ts ?_⟩
    split
    · exact Level.derives_of_operand hleft
    · exact hleft

theorem operand_derived : ∀ (fuel : Nat) (l : Level) (c : Cursor),
    Yields (operand fuel l c) (Derived c (l.OperandDerives c.inHeader))
  | 0, _, _ => Yields.error _ _
  | fuel + 1, l, c => by
    rw [operand]
    split
    · rename_i tight htight
      apply Yields.of_ok
      intro r hr
      obtain ⟨ts, rfl, he⟩ := (level_derived fuel tight c).ok hr
      exact ⟨ts, rfl, Level.operandDerives_of_tighter htight he⟩
    · rename_i htight
      rw [Level.eq_product_of_tighter? htight]
      exact unary_derived fuel c

theorem levelRest_derived : ∀ (fuel : Nat) (l : Level) (left : Expr) (c : Cursor),
    Yields (levelRest fuel l left c) (Derived c (ContinuesLevel l c.inHeader left))
  | 0, _, _, _ => Yields.error _ _
  | fuel + 1, l, left, c => by
    rw [levelRest]
    split
    · refine Yields.pure ⟨[], rfl, ?_⟩
      intro ts hleft
      rw [List.append_nil]
      split at hleft
      · exact hleft
      · exact Level.derives_of_operand hleft
    · rename_i op hat
      obtain ⟨x, hx, hop⟩ := Option.bind_eq_some_iff.mp hat
      obtain ⟨mark, rest, mode, rfl, rfl⟩ := Cursor.exists_of_lexeme? hx
      apply (operand_derived fuel l ⟨rest, mode⟩).bind
      rintro ⟨right, c⟩ ⟨us, hc, hright⟩
      cases hc
      dsimp only
      split
      · rename_i hchains
        -- The operation is the left operand of what follows.
        apply Yields.of_ok
        intro r hr
        obtain ⟨vs, rfl, he⟩ := (levelRest_derived fuel l _ c).ok hr
        refine ⟨mark :: (us ++ vs), by simp, ?_⟩
        intro ts hleft
        rw [if_pos hchains] at hleft
        have hboth := Level.derives_chain hchains hop hleft hright
        have hall := he (ts ++ mark :: us) (by rwa [if_pos hchains])
        rwa [List.append_assoc, List.cons_append] at hall
      · rename_i hchains
        refine Yields.pure ⟨mark :: us, rfl, ?_⟩
        intro ts hleft
        rw [if_neg hchains] at hleft
        exact Level.derives_pair (Bool.eq_false_iff.mpr hchains) hop hleft hright

theorem unary_derived : ∀ (fuel : Nat) (c : Cursor),
    Yields (unary fuel c) (Derived c (IsUnary c.inHeader))
  | 0, _ => Yields.error _ _
  | fuel + 1, c => by
    rw [unary]
    split
    · rename_i op hat
      obtain ⟨x, hx, hop⟩ := Option.bind_eq_some_iff.mp hat
      obtain ⟨mark, rest, mode, rfl, rfl⟩ := Cursor.exists_of_lexeme? hx
      apply (unary_derived fuel ⟨rest, mode⟩).bind
      rintro ⟨e, after⟩ ⟨ts, hc, he⟩
      cases hc
      exact Yields.pure ⟨mark :: ts, rfl, .signed (signOp_of_signOp? hop) he⟩
    · apply Yields.of_ok
      intro r hr
      obtain ⟨ts, rfl, he⟩ := (power_derived fuel c).ok hr
      exact ⟨ts, rfl, .plain he⟩

theorem power_derived : ∀ (fuel : Nat) (c : Cursor),
    Yields (power fuel c) (Derived c (IsPower c.inHeader))
  | 0, _ => Yields.error _ _
  | fuel + 1, c => by
    rw [power]
    apply (indexed_derived fuel c).bind
    rintro ⟨base, c⟩ ⟨ts, rfl, hbase⟩
    dsimp only
    split
    · rename_i hat
      obtain ⟨mark, rest, mode, rfl, hmark⟩ := Cursor.exists_of_isAt hat
      apply (unary_derived fuel ⟨rest, mode⟩).bind
      rintro ⟨e, c⟩ ⟨us, hc, he⟩
      cases hc
      exact Yields.pure ⟨ts ++ mark :: us, by simp, .raised hbase (eq_of_beq hmark) he⟩
    · exact Yields.pure ⟨ts, rfl, .plain hbase⟩

/-- What is read as a primary expression with indexes is derived as one. -/
theorem indexed_derived : ∀ (fuel : Nat) (c : Cursor),
    Yields (indexed fuel c) (Derived c (IsPostfix c.inHeader))
  | 0, _ => Yields.error _ _
  | fuel + 1, c => by
    rw [indexed]
    apply (primary_derived fuel c).bind
    rintro ⟨e, c⟩ ⟨ts, rfl, he⟩
    apply Yields.of_ok
    intro r hr
    obtain ⟨us, rfl, hall⟩ := (indexes_derived fuel e c).ok hr
    exact ⟨ts ++ us, by simp, hall ts (.plain he)⟩

theorem indexes_derived : ∀ (fuel : Nat) (e : Expr) (c : Cursor),
    Yields (indexes fuel e c) (Derived c (ContinuesPostfix c.inHeader e))
  | 0, _, _ => Yields.error _ _
  | fuel + 1, e, c => by
    rw [indexes]
    split
    · rename_i hat
      obtain ⟨opening, rest, mode, rfl, hopening⟩ := Cursor.exists_of_isAt hat
      apply (nested_derived fuel ⟨rest, mode⟩).bind
      rintro ⟨i, c⟩ ⟨us, hc, hi⟩
      cases hc
      apply (Cursor.expect_took _ _).bind
      rintro c ⟨closing, rfl, hclosing⟩
      apply Yields.of_ok
      intro r hr
      obtain ⟨vs, rfl, hall⟩ := (indexes_derived fuel (.index e.pos e i) c).ok hr
      refine ⟨opening :: (us ++ closing :: vs), by simp, ?_⟩
      intro ts he
      have hindex := hall _ (.index he (eq_of_beq hopening) hi (eq_of_beq hclosing))
      simpa using hindex
    · refine Yields.pure ⟨[], rfl, ?_⟩
      intro ts he
      rwa [List.append_nil]

theorem primary_derived : ∀ (fuel : Nat) (c : Cursor),
    Yields (primary fuel c) (Derived c (IsPrimary c.inHeader))
  | 0, _ => Yields.error _ _
  | fuel + 1, c => by
    rw [primary]
    split
    · rename_i digits hat
      obtain ⟨t, rest, mode, rfl, ht⟩ := Cursor.exists_of_lexeme? hat
      split
      · rename_i hlength
        exact Yields.pure ⟨[t], rfl, .int ht hlength⟩
      · exact Yields.error _ _
    · rename_i hat
      obtain ⟨t, rest, mode, rfl, ht⟩ := Cursor.exists_of_lexeme? hat
      exact Yields.pure ⟨[t], rfl, .float ht⟩
    · rename_i hat
      obtain ⟨t, rest, mode, rfl, ht⟩ := Cursor.exists_of_lexeme? hat
      exact Yields.pure ⟨[t], rfl, .string ht⟩
    · rename_i hat
      obtain ⟨t, rest, mode, rfl, ht⟩ := Cursor.exists_of_lexeme? hat
      exact Yields.pure ⟨[t], rfl, .true_ ht⟩
    · rename_i hat
      obtain ⟨t, rest, mode, rfl, ht⟩ := Cursor.exists_of_lexeme? hat
      exact Yields.pure ⟨[t], rfl, .false_ ht⟩
    · rename_i hat
      split
      · rename_i hcall
        obtain ⟨hmode, -⟩ := Bool.and_eq_true_iff.mp hcall
        apply (call_derived fuel c).bind
        rintro ⟨⟨callee, args⟩, after⟩ ⟨ts, rfl, hargs⟩
        obtain ⟨t, ts, rfl⟩ := hargs.exists_cons
        obtain ⟨rest, mode⟩ := after
        obtain rfl : mode = false := by simpa using hmode
        exact Yields.pure ⟨t :: ts, rfl, .call hargs⟩
      · obtain ⟨t, rest, mode, rfl, ht⟩ := Cursor.exists_of_lexeme? hat
        exact Yields.pure ⟨[t], rfl, .var ht⟩
    · rename_i hat
      obtain ⟨opening, rest, mode, rfl, hopening⟩ := Cursor.exists_of_lexeme? hat
      apply (nested_derived fuel ⟨rest, mode⟩).bind
      rintro ⟨e, c⟩ ⟨ts, hc, he⟩
      cases hc
      apply (Cursor.expect_took _ _).bind
      rintro c ⟨closing, rfl, hclosing⟩
      refine Yields.pure ⟨opening :: (ts ++ [closing]), by simp, ?_⟩
      exact .parens hopening he (eq_of_beq hclosing)
    · exact brackets_derived fuel c
    · exact Yields.error _ _

/-- What is read as a call is derived as one. -/
theorem call_derived : ∀ (fuel : Nat) (c : Cursor),
    Yields (call fuel c) (Derived c (fun ts r => IsCall c.inHeader ts r.1 r.2))
  | 0, _ => Yields.error _ _
  | fuel + 1, c => by
    rw [call]
    apply (Cursor.expectName_took c).bind
    rintro ⟨callee, c⟩ ⟨name, rfl, hname⟩
    apply (Cursor.expect_took _ _).bind
    rintro c ⟨colon, rfl, hcolon⟩
    dsimp only
    split
    · apply (expr_derived fuel c).bind
      rintro ⟨first, c⟩ ⟨ts, rfl, hfirst⟩
      apply (arguments_derived fuel c).bind
      rintro ⟨others, c⟩ ⟨us, rfl, hothers⟩
      refine Yields.pure ⟨name :: colon :: (ts ++ us), by simp, ?_⟩
      exact .applied hname (eq_of_beq hcolon) (hothers ts first hfirst)
    · exact Yields.pure ⟨[name, colon], rfl, .bare hname (eq_of_beq hcolon)⟩

theorem arguments_derived : ∀ (fuel : Nat) (c : Cursor),
    Yields (arguments fuel c) (Derived c (Continues c.inHeader))
  | 0, _ => Yields.error _ _
  | fuel + 1, c => by
    rw [arguments]
    split
    · rename_i hat
      obtain ⟨comma, rest, mode, rfl, hcomma⟩ := Cursor.exists_of_isAt hat
      apply (expr_derived fuel ⟨rest, mode⟩).bind
      rintro ⟨e, c⟩ ⟨ts, hc, he⟩
      cases hc
      apply (arguments_derived fuel c).bind
      rintro ⟨others, c⟩ ⟨us, rfl, hothers⟩
      refine Yields.pure ⟨comma :: (ts ++ us), by simp, ?_⟩
      exact continues_cons (eq_of_beq hcomma) he hothers
    · exact Yields.pure ⟨[], rfl, continues_nil _⟩

/-- What is read in square brackets is a group or an array. -/
theorem brackets_derived : ∀ (fuel : Nat) (c : Cursor),
    Yields (brackets fuel c) (Derived c (IsPrimary c.inHeader))
  | 0, _ => Yields.error _ _
  | fuel + 1, c => by
    rw [brackets]
    apply (Cursor.expect_took _ _).bind
    rintro c ⟨opening, rfl, hopening⟩
    dsimp only
    split
    · rename_i hat
      obtain ⟨closing, rest, mode, rfl, hclosing⟩ := Cursor.exists_of_isAt hat
      exact Yields.pure ⟨[opening, closing], rfl,
        .emptyArray (eq_of_beq hopening) (eq_of_beq hclosing)⟩
    · apply (nested_derived fuel c).bind
      rintro ⟨first, c⟩ ⟨ts, rfl, hfirst⟩
      dsimp only
      split
      · rename_i hat
        apply (elements_derived fuel true c).bind
        rintro ⟨others, c⟩ ⟨us, rfl, hothers⟩
        apply (Cursor.expect_took _ _).bind
        rintro c ⟨closing, rfl, hclosing⟩
        dsimp only at hothers
        rcases hothers with ⟨-, rfl, comma, rfl, hcomma⟩ | ⟨hothers, hsome⟩
        · refine Yields.pure ⟨opening :: (ts ++ [comma, closing]), by simp, ?_⟩
          exact .oneElement (eq_of_beq hopening) hfirst hcomma (eq_of_beq hclosing)
        · -- A comma follows the first element, so there is a second one.
          have hus : us ≠ [] := by
            rintro rfl
            have hcomma := eq_of_beq hat
            rw [eq_of_beq hclosing] at hcomma
            cases hcomma
          have hlength : 2 ≤ (first :: others).length := by
            have hpos := List.length_pos_iff.mpr (hsome hus)
            rw [List.length_cons]
            omega
          refine Yields.pure ⟨opening :: ((ts ++ us) ++ [closing]), by simp, ?_⟩
          exact .array (eq_of_beq hopening) (hothers ts first hfirst) hlength
            (eq_of_beq hclosing)
      · apply (Cursor.expect_took _ _).bind
        rintro c ⟨closing, rfl, hclosing⟩
        refine Yields.pure ⟨opening :: (ts ++ [closing]), by simp, ?_⟩
        exact .group (eq_of_beq hopening) hfirst (eq_of_beq hclosing)

theorem elements_derived : ∀ (fuel : Nat) (single : Bool) (c : Cursor),
    Yields (elements fuel single c) (Derived c (ContinuesArray single))
  | 0, _, _ => Yields.error _ _
  | fuel + 1, single, c => by
    rw [elements]
    split
    · rename_i hat
      obtain ⟨comma, rest, mode, rfl, hcomma⟩ := Cursor.exists_of_isAt hat
      split
      · rename_i hsingle
        refine Yields.pure ⟨[comma], rfl, .inl ⟨?_, rfl, comma, rfl, eq_of_beq hcomma⟩⟩
        exact (Bool.and_eq_true_iff.mp hsingle).1
      · apply (nested_derived fuel ⟨rest, mode⟩).bind
        rintro ⟨e, c⟩ ⟨ts, hc, he⟩
        cases hc
        apply (elements_derived fuel false c).bind
        rintro ⟨others, c⟩ ⟨us, rfl, hothers⟩
        rcases hothers with ⟨hsingle, -⟩ | ⟨hothers, -⟩
        · cases hsingle
        · refine Yields.pure ⟨comma :: (ts ++ us), by simp, .inr ⟨?_, by simp⟩⟩
          exact continues_cons (eq_of_beq hcomma) he hothers
    · exact Yields.pure ⟨[], rfl, .inr ⟨continues_nil _, fun h => absurd rfl h⟩⟩

end

end ReadExpr

/-! ## Kinds of statements -/

/-- The kinds of statements that have a reader of their own. -/
inductive StmtKind where
  | print
  | branch
  | whileLoop
  | forLoop
  | forEach
  | function
  | ret

/-- Which statements are of a kind. -/
inductive HasKind : StmtKind → Stmt → Prop
  | print {pos : Pos} {value : Expr} : HasKind .print (.print pos value)
  | branch {pos : Pos} {test : Expr} {body : List Stmt} {rest : Else} :
      HasKind .branch (.branch pos test body rest)
  | whileLoop {pos : Pos} {test : Expr} {body : List Stmt} :
      HasKind .whileLoop (.whileLoop pos test body)
  | forLoop {pos : Pos} {init update : Binding} {test : Expr} {body : List Stmt} :
      HasKind .forLoop (.forLoop pos init test update body)
  | forEach {pos : Pos} {collection : Expr} {name : String} {body : List Stmt} :
      HasKind .forEach (.forEach pos collection name body)
  | function {pos : Pos} {name : String} {params : List Param} {body : List Stmt} :
      HasKind .function (.function pos name params body)
  | ret {pos : Pos} {value : Option Expr} : HasKind .ret (.ret pos value)

/-- A statement of a kind is derived. -/
def IsStmtOf (kind : StmtKind) (header : Bool) (ts : List Token) (s : Stmt) : Prop :=
  IsStmt header ts s ∧ HasKind kind s

/-! ## Statements of one line -/

namespace Cursor

/-- What is read in a header is derived as an expression of a header. -/
theorem headerExpr_derived (c : Cursor) : Yields c.headerExpr (Derived c (IsExpr true)) := by
  obtain ⟨rest, mode⟩ := c
  unfold headerExpr
  apply (ReadExpr.expr_derived _ ⟨rest, true⟩).bind
  rintro ⟨e, ⟨left, _⟩⟩ ⟨ts, hc, he⟩
  cases hc
  exact Yields.pure ⟨ts, rfl, he⟩

theorem bindingRest_derived (c : Cursor) (start : Pos) (name : String) :
    Yields (c.bindingRest start name) (Derived c (fun us b =>
      ∀ ident : Token, ident.lexeme = .name name →
        IsBinding c.inHeader start (ident :: us) b)) := by
  unfold bindingRest
  apply (expect_took c _).bind
  rintro c ⟨assign, rfl, hassign⟩
  apply (ReadExpr.expr_derived _ c).bind
  rintro ⟨value, c⟩ ⟨ts, rfl, hvalue⟩
  apply (expect_took _ _).bind
  rintro c ⟨semicolon, rfl, hsemicolon⟩
  refine Yields.pure ⟨assign :: (ts ++ [semicolon]), by simp, ?_⟩
  intro ident hident
  exact .intro hident (eq_of_beq hassign) hvalue (eq_of_beq hsemicolon)

theorem declaration_derived (c : Cursor) :
    Yields c.declaration (Derived c (IsDeclaration c.inHeader)) := by
  unfold declaration
  apply (expect_took c _).bind
  rintro c ⟨pencil, rfl, hpencil⟩
  apply (expectName_took c).bind
  rintro ⟨name, c⟩ ⟨ident, rfl, hident⟩
  apply Yields.of_ok
  intro r hr
  obtain ⟨us, rfl, hb⟩ := (bindingRest_derived c _ name).ok hr
  exact ⟨pencil :: ident :: us, rfl, .intro (eq_of_beq hpencil) (hb ident hident)⟩

theorem assignment_derived (c : Cursor) :
    Yields c.assignment (Derived c (IsAssignment c.inHeader)) := by
  unfold assignment
  apply (expectName_took c).bind
  rintro ⟨name, c⟩ ⟨ident, rfl, hident⟩
  apply Yields.of_ok
  intro r hr
  obtain ⟨us, rfl, hb⟩ := (bindingRest_derived c _ name).ok hr
  exact ⟨ident :: us, rfl, .intro (hb ident hident)⟩

theorem print_derived (c : Cursor) :
    Yields c.print (Derived c (IsStmtOf .print c.inHeader)) := by
  unfold print
  apply (expect_took c _).bind
  rintro c ⟨speak, rfl, hspeak⟩
  apply (ReadExpr.expr_derived _ c).bind
  rintro ⟨value, c⟩ ⟨ts, rfl, hvalue⟩
  apply (expect_took _ _).bind
  rintro c ⟨semicolon, rfl, hsemicolon⟩
  refine Yields.pure ⟨speak :: (ts ++ [semicolon]), by simp, ?_, .print⟩
  exact .print (eq_of_beq hspeak) hvalue (eq_of_beq hsemicolon)

theorem exit_derived (c : Cursor) : Yields c.exit (Derived c (IsStmt c.inHeader)) := by
  unfold exit
  apply (expect_took c _).bind
  rintro c ⟨break_, rfl, hbreak⟩
  apply (expect_took _ _).bind
  rintro c ⟨semicolon, rfl, hsemicolon⟩
  exact Yields.pure ⟨[break_, semicolon], rfl, .exit (eq_of_beq hbreak) (eq_of_beq hsemicolon)⟩

theorem ret_derived (c : Cursor) :
    Yields c.ret (Derived c (IsStmtOf .ret c.inHeader)) := by
  unfold ret
  apply (expect_took c _).bind
  rintro c ⟨return_, rfl, hreturn⟩
  dsimp only
  split
  · rename_i hat
    obtain ⟨semicolon, rest, mode, rfl, hsemicolon⟩ := exists_of_isAt hat
    exact Yields.pure ⟨[return_, semicolon], rfl,
      .shortReturn (eq_of_beq hreturn) (eq_of_beq hsemicolon), .ret⟩
  · apply (ReadExpr.expr_derived _ c).bind
    rintro ⟨value, c⟩ ⟨ts, rfl, hvalue⟩
    apply (expect_took _ _).bind
    rintro c ⟨semicolon, rfl, hsemicolon⟩
    refine Yields.pure ⟨return_ :: (ts ++ [semicolon]), by simp, ?_, .ret⟩
    exact .ret (eq_of_beq hreturn) hvalue (eq_of_beq hsemicolon)

theorem callStmt_derived (c : Cursor) : Yields c.callStmt (Derived c (IsStmt c.inHeader)) := by
  unfold callStmt
  apply (ReadExpr.call_derived _ c).bind
  rintro ⟨⟨callee, args⟩, c⟩ ⟨ts, rfl, hcall⟩
  apply (expect_took _ _).bind
  rintro c ⟨semicolon, rfl, hsemicolon⟩
  obtain ⟨t, ts, rfl⟩ := hcall.exists_cons
  exact Yields.pure ⟨t :: (ts ++ [semicolon]), by simp, .call hcall (eq_of_beq hsemicolon)⟩

theorem param_derived (c : Cursor) : Yields c.param (Derived c IsParam) := by
  unfold param
  apply (expectName_took c).bind
  rintro ⟨name, c⟩ ⟨t, rfl, ht⟩
  exact Yields.pure ⟨[t], rfl, .intro ht⟩

/-- A `stop` in front of an `else`. -/
theorem exists_stop_else {c : Cursor}
    (h : (c.isAt (.keyword .stop) && c.secondIs (.keyword .else_)) = true) :
    ∃ stop else_ rest mode, c = ⟨stop :: else_ :: rest, mode⟩ ∧
      stop.lexeme = .keyword .stop ∧ else_.lexeme = .keyword .else_ := by
  obtain ⟨hat, helse⟩ := Bool.and_eq_true_iff.mp h
  obtain ⟨stop, rest, mode, rfl, hstop⟩ := exists_of_isAt hat
  cases rest with
  | nil =>
    -- Behind the last token it is seen once more.
    rw [eq_of_beq (show (stop.lexeme == .keyword .else_) = true from helse)] at hstop
    cases hstop
  | cons else_ rest => exact ⟨stop, else_, rest, mode, rfl, eq_of_beq hstop, eq_of_beq helse⟩

end Cursor

/-! ## Statements with bodies -/

namespace ReadStmt

theorem moreParams_derived (fuel : Nat) (c : Cursor) :
    Yields (moreParams fuel c) (Derived c (fun us others =>
      ∀ ts p, IsParam ts p → IsParams (ts ++ us) (p :: others))) := by
  induction fuel generalizing c with
  | zero => exact Yields.error _ _
  | succ fuel ih =>
    rw [moreParams]
    split
    · rename_i hat
      obtain ⟨comma, rest, mode, rfl, hcomma⟩ := Cursor.exists_of_isAt hat
      apply (Cursor.param_derived ⟨rest, mode⟩).bind
      rintro ⟨p, c⟩ ⟨ts, hc, hp⟩
      cases hc
      apply (ih c).bind
      rintro ⟨others, c⟩ ⟨us, rfl, hothers⟩
      refine Yields.pure ⟨comma :: (ts ++ us), by simp, ?_⟩
      intro ts' p' hp'
      exact .more hp' (eq_of_beq hcomma) (hothers ts p hp)
    · refine Yields.pure ⟨[], rfl, ?_⟩
      intro ts p hp
      rw [List.append_nil]
      exact .one hp

theorem params_derived (c : Cursor) : Yields (params c) (Derived c IsParams) := by
  unfold params
  split
  · apply (Cursor.param_derived c).bind
    rintro ⟨p, c⟩ ⟨ts, rfl, hp⟩
    apply (moreParams_derived _ c).bind
    rintro ⟨others, c⟩ ⟨us, rfl, hothers⟩
    exact Yields.pure ⟨ts ++ us, by simp, hothers ts p hp⟩
  · exact Yields.pure ⟨[], rfl, .none⟩

/-- What stands behind the body of a branch ends it. -/
def EndsBranch (header : Bool) (us : List Token) (rest : Else) : Prop :=
  ∀ {if_ colon : Token} {ts vs : List Token} {test : Expr} {body : List Stmt},
    if_.lexeme = .keyword .if_ → IsExpr true ts test → colon.lexeme = .symbol .colon →
    IsStmts header vs body →
    IsBranch header (if_ :: (ts ++ colon :: (vs ++ us))) test body rest

section Branches

variable {fuel : Nat}
  (hbranch : ∀ c, Yields (branch fuel c)
    (Derived c (fun ts r => IsBranch c.inHeader ts r.1 r.2.1 r.2.2)))
  (hblock : ∀ c, Yields (block fuel c) (Derived c (IsBlock c.inHeader)))

include hbranch hblock

/-- Behind an `else` an `if` begins a further branch, and anything else a block. -/
theorem alternative_derived {gap : List Token} {else_ : Token} (hgap : IsOptionalStop gap)
    (helse : else_.lexeme = .keyword .else_) (c : Cursor) :
    Yields (if c.isAt (.keyword .if_) = true then do
        let ((test, body, rest), after) ← branch fuel c
        return (Else.branch c.pos test body rest, after)
      else do
        let (closing, c) ← block fuel c
        return (.body closing, c))
      (Derived ⟨gap ++ else_ :: c.rest, c.inHeader⟩ (EndsBranch c.inHeader)) := by
  split
  · apply (hbranch c).bind
    rintro ⟨⟨test, body, rest⟩, after⟩ ⟨ts, rfl, hrest⟩
    obtain ⟨t, ts, rfl⟩ := hrest.exists_cons
    refine Yields.pure ⟨gap ++ else_ :: t :: ts, by simp, ?_⟩
    intro if_ colon us vs test' body' hif htest hcolon hbody
    exact .chained hif htest hcolon hbody hgap helse hrest
  · rename_i hat
    apply (hblock c).bind
    rintro ⟨closing, after⟩ ⟨ts, rfl, hclosing⟩
    refine Yields.pure ⟨gap ++ else_ :: ts, by simp, ?_⟩
    intro if_ colon us vs test body hif htest hcolon hbody
    refine .closed hif htest hcolon hbody hgap helse hclosing ?_
    intro t ht hlexeme
    cases ts with
    | nil => cases ht
    | cons first rest =>
      cases ht
      exact hat (beq_iff_eq.mpr hlexeme)

theorem branchRest_derived (c : Cursor) :
    Yields (branchRest fuel c) (Derived c (EndsBranch c.inHeader)) := by
  unfold branchRest
  by_cases hpass : (c.isAt (.keyword .stop) && c.secondIs (.keyword .else_)) = true
  · rw [if_pos hpass]
    obtain ⟨stop, else_, rest, mode, rfl, hstop, helse⟩ := Cursor.exists_stop_else hpass
    have hat : (Cursor.mk (stop :: else_ :: rest) mode).next.isAt (.keyword .else_) = true :=
      beq_iff_eq.mpr helse
    rw [if_pos hat]
    exact alternative_derived hbranch hblock (.present hstop) helse ⟨rest, mode⟩
  · rw [if_neg hpass]
    dsimp only
    split
    · rename_i hat
      obtain ⟨else_, rest, mode, rfl, helse⟩ := Cursor.exists_of_isAt hat
      exact alternative_derived hbranch hblock .absent (eq_of_beq helse) ⟨rest, mode⟩
    · apply (Cursor.expect_took _ _).bind
      rintro c ⟨stop, rfl, hstop⟩
      refine Yields.pure ⟨[stop], rfl, ?_⟩
      intro if_ colon ts vs test body hif htest hcolon hbody
      exact .absent hif htest hcolon hbody (eq_of_beq hstop)

end Branches

mutual

/-- What is read as a statement is derived as one. -/
theorem stmt_derived : ∀ (fuel : Nat) (c : Cursor),
    Yields (stmt fuel c) (Derived c (IsStmt c.inHeader))
  | 0, _ => Yields.error _ _
  | fuel + 1, c => by
    have drop : ∀ {kind : StmtKind} {r : Reading (Stmt × Cursor)},
        Yields r (Derived c (IsStmtOf kind c.inHeader)) →
        Yields r (Derived c (IsStmt c.inHeader)) := by
      intro kind r h
      apply Yields.of_ok
      intro s hs
      obtain ⟨ts, hc, hstmt, -⟩ := h.ok hs
      exact ⟨ts, hc, hstmt⟩
    rw [stmt]
    apply Yields.ite
    · exact drop (Cursor.print_derived c)
    apply Yields.ite
    · apply (Cursor.declaration_derived c).bind
      rintro ⟨b, c⟩ ⟨ts, rfl, hb⟩
      exact Yields.pure ⟨ts, rfl, .declare hb⟩
    apply Yields.ite
    · apply (branch_derived fuel c).bind
      rintro ⟨⟨test, body, rest⟩, after⟩ ⟨ts, rfl, hbranch⟩
      obtain ⟨t, ts, rfl⟩ := hbranch.exists_cons
      exact Yields.pure ⟨t :: ts, rfl, .branch hbranch⟩
    apply Yields.ite
    · exact drop (whileLoop_derived fuel c)
    apply Yields.ite
    · exact drop (forLoop_derived fuel c)
    apply Yields.ite
    · exact drop (function_derived fuel c)
    apply Yields.ite
    · exact Cursor.exit_derived c
    apply Yields.ite
    · exact drop (Cursor.ret_derived c)
    apply Yields.ite
    · apply (Cursor.assignment_derived c).bind
      rintro ⟨b, c⟩ ⟨ts, rfl, hb⟩
      exact Yields.pure ⟨ts, rfl, .assign hb⟩
    apply Yields.ite
    · exact Cursor.callStmt_derived c
    · exact drop (forEach_derived fuel c)

theorem stmtsUntil_derived : ∀ (fuel : Nat) (terminals : List Terminal) (c : Cursor),
    Yields (stmtsUntil fuel terminals c) (Derived c (IsStmts c.inHeader))
  | 0, _, _ => Yields.error _ _
  | fuel + 1, terminals, c => by
    rw [stmtsUntil]
    split
    · exact Yields.pure ⟨[], rfl, .nil⟩
    split
    · exact Yields.error _ _
    · apply (stmt_derived fuel c).bind
      rintro ⟨s, c⟩ ⟨ts, rfl, hs⟩
      apply (stmtsUntil_derived fuel terminals c).bind
      rintro ⟨others, c⟩ ⟨us, rfl, hothers⟩
      exact Yields.pure ⟨ts ++ us, by simp, .cons hs hothers⟩

theorem block_derived : ∀ (fuel : Nat) (c : Cursor),
    Yields (block fuel c) (Derived c (IsBlock c.inHeader))
  | 0, _ => Yields.error _ _
  | fuel + 1, c => by
    rw [block]
    apply (stmtsUntil_derived fuel _ c).bind
    rintro ⟨body, c⟩ ⟨ts, rfl, hbody⟩
    apply (Cursor.expect_took _ _).bind
    rintro c ⟨stop, rfl, hstop⟩
    exact Yields.pure ⟨ts ++ [stop], by simp, .intro hbody (eq_of_beq hstop)⟩

/-- What is read as a branch is derived as one. -/
theorem branch_derived : ∀ (fuel : Nat) (c : Cursor),
    Yields (branch fuel c)
      (Derived c (fun ts r => IsBranch c.inHeader ts r.1 r.2.1 r.2.2))
  | 0, _ => Yields.error _ _
  | fuel + 1, c => by
    rw [branch_succ]
    apply (Cursor.expect_took _ _).bind
    rintro c ⟨if_, rfl, hif⟩
    apply (Cursor.headerExpr_derived c).bind
    rintro ⟨test, c⟩ ⟨ts, rfl, htest⟩
    apply (Cursor.expect_took _ _).bind
    rintro c ⟨colon, rfl, hcolon⟩
    apply (stmtsUntil_derived fuel _ c).bind
    rintro ⟨body, c⟩ ⟨us, rfl, hbody⟩
    apply (branchRest_derived (branch_derived fuel) (block_derived fuel) c).bind
    rintro ⟨rest, c⟩ ⟨vs, rfl, hrest⟩
    refine Yields.pure ⟨if_ :: (ts ++ colon :: (us ++ vs)), by simp, ?_⟩
    exact hrest (eq_of_beq hif) htest (eq_of_beq hcolon) hbody

theorem whileLoop_derived : ∀ (fuel : Nat) (c : Cursor),
    Yields (whileLoop fuel c)
      (Derived c (IsStmtOf .whileLoop c.inHeader))
  | 0, _ => Yields.error _ _
  | fuel + 1, c => by
    rw [whileLoop]
    apply (Cursor.expect_took _ _).bind
    rintro c ⟨while_, rfl, hwhile⟩
    apply (Cursor.headerExpr_derived c).bind
    rintro ⟨test, c⟩ ⟨ts, rfl, htest⟩
    apply (Cursor.expect_took _ _).bind
    rintro c ⟨colon, rfl, hcolon⟩
    apply (block_derived fuel c).bind
    rintro ⟨body, c⟩ ⟨us, rfl, hbody⟩
    refine Yields.pure ⟨while_ :: (ts ++ colon :: us), by simp, ?_, .whileLoop⟩
    exact .whileLoop (eq_of_beq hwhile) htest (eq_of_beq hcolon) hbody

theorem forLoop_derived : ∀ (fuel : Nat) (c : Cursor),
    Yields (forLoop fuel c)
      (Derived c (IsStmtOf .forLoop c.inHeader))
  | 0, _ => Yields.error _ _
  | fuel + 1, c => by
    rw [forLoop]
    apply (Cursor.expect_took _ _).bind
    rintro c ⟨for_, rfl, hfor⟩
    apply (Cursor.declaration_derived c).bind
    rintro ⟨init, c⟩ ⟨ts, rfl, hinit⟩
    apply (Cursor.expect_took _ _).bind
    rintro c ⟨stop, rfl, hstop⟩
    apply (Cursor.headerExpr_derived c).bind
    rintro ⟨test, c⟩ ⟨us, rfl, htest⟩
    apply (Cursor.expect_took _ _).bind
    rintro c ⟨fastfwd, rfl, hfastfwd⟩
    apply (Cursor.assignment_derived c).bind
    rintro ⟨update, c⟩ ⟨vs, rfl, hupdate⟩
    apply (block_derived fuel c).bind
    rintro ⟨body, c⟩ ⟨ws, rfl, hbody⟩
    refine Yields.pure
      ⟨for_ :: (ts ++ stop :: (us ++ fastfwd :: (vs ++ ws))), by simp, ?_, .forLoop⟩
    exact .forLoop (eq_of_beq hfor) hinit (eq_of_beq hstop) htest (eq_of_beq hfastfwd) hupdate hbody

theorem forEach_derived : ∀ (fuel : Nat) (c : Cursor),
    Yields (forEach fuel c)
      (Derived c (IsStmtOf .forEach c.inHeader))
  | 0, _ => Yields.error _ _
  | fuel + 1, ⟨rest, mode⟩ => by
    rw [forEach]
    apply (ReadExpr.indexed_derived _ ⟨rest, true⟩).bind
    rintro ⟨collection, ⟨left, _⟩⟩ ⟨ts, hc, hcollection⟩
    cases hc
    obtain ⟨t, ts, rfl⟩ := hcollection.exists_cons
    apply (Cursor.expect_took _ _).bind
    rintro c ⟨dot, hc, hdot⟩
    cases hc
    apply (Cursor.expect_took _ _).bind
    rintro c ⟨loop, rfl, hloop⟩
    apply (Cursor.expectName_took c).bind
    rintro ⟨name, c⟩ ⟨ident, rfl, hident⟩
    apply (Cursor.expect_took _ _).bind
    rintro c ⟨colon, rfl, hcolon⟩
    apply (block_derived fuel c).bind
    rintro ⟨body, c⟩ ⟨us, rfl, hbody⟩
    refine Yields.pure ⟨t :: (ts ++ dot :: loop :: ident :: colon :: us), by simp, ?_, .forEach⟩
    exact .forEach hcollection (eq_of_beq hdot) (eq_of_beq hloop) hident (eq_of_beq hcolon) hbody

theorem function_derived : ∀ (fuel : Nat) (c : Cursor),
    Yields (function fuel c)
      (Derived c (IsStmtOf .function c.inHeader))
  | 0, _ => Yields.error _ _
  | fuel + 1, c => by
    rw [function]
    apply (Cursor.expect_took _ _).bind
    rintro c ⟨fn, rfl, hfn⟩
    apply (Cursor.expectName_took c).bind
    rintro ⟨name, c⟩ ⟨ident, rfl, hident⟩
    apply (params_derived c).bind
    rintro ⟨parameters, c⟩ ⟨ts, rfl, hparams⟩
    apply (Cursor.expect_took _ _).bind
    rintro c ⟨colon, rfl, hcolon⟩
    apply (block_derived fuel c).bind
    rintro ⟨body, c⟩ ⟨us, rfl, hbody⟩
    refine Yields.pure ⟨fn :: ident :: (ts ++ colon :: us), by simp, ?_, .function⟩
    exact .function (eq_of_beq hfn) hident hparams (eq_of_beq hcolon) hbody

end

theorem stmts_derived (fuel : Nat) (c : Cursor) :
    Yields (stmts fuel c) (Derived c (IsStmts c.inHeader)) := by
  induction fuel generalizing c with
  | zero => exact Yields.error _ _
  | succ fuel ih =>
    rw [stmts]
    split
    · exact Yields.pure ⟨[], rfl, .nil⟩
    · apply (stmt_derived _ c).bind
      rintro ⟨s, c⟩ ⟨ts, rfl, hs⟩
      apply (ih c).bind
      rintro ⟨others, c⟩ ⟨us, rfl, hothers⟩
      exact Yields.pure ⟨ts ++ us, by simp, .cons hs hothers⟩

end ReadStmt

/-! ## Every reader -/

/-- The readers of the grammar. -/
inductive Reader where
  | program
  | stmtsUntil (terminals : List Terminal)
  | block
  | stmt
  | print
  | declaration
  | assignment
  | branch
  | whileLoop
  | forLoop
  | forEach
  | function
  | param
  | ret
  | call
  | headerExpr
  | nested
  | expr
  | level (l : Level)
  | unary
  | power
  | indexed
  | primary
  | brackets

namespace Reader

/-- What a reader gives. -/
def Result : Reader → Type
  | program => Program
  | stmtsUntil _ | block => List Stmt
  | declaration | assignment => Binding
  | param => Param
  | call => String × List Expr
  | stmt | print | branch | whileLoop | forLoop | forEach | function | ret => Stmt
  | headerExpr | nested | expr | level _ | unary | power | indexed | primary | brackets => Expr

/-- Reads from a cursor. -/
def read : (reader : Reader) → Cursor → Reading (reader.Result × Cursor)
  | program, c => c.program
  | stmtsUntil terminals, c => c.stmtsUntil terminals
  | block, c => c.block
  | stmt, c => c.stmt
  | print, c => c.print
  | declaration, c => c.declaration
  | assignment, c => c.assignment
  | branch, c => c.branch
  | whileLoop, c => c.whileLoop
  | forLoop, c => c.forLoop
  | forEach, c => c.forEach
  | function, c => c.function
  | param, c => c.param
  | ret, c => c.ret
  | call, c => c.call
  | headerExpr, c => c.headerExpr
  | nested, c => c.nested
  | expr, c => c.expr
  | level l, c => c.level l
  | unary, c => c.unary
  | power, c => c.power
  | indexed, c => c.indexed
  | primary, c => c.primary
  | brackets, c => c.brackets

/-- What the grammar derives from some tokens in the place of a reader.  A reader of
one kind of statement gives a statement of that kind. -/
def Derives : (reader : Reader) → Bool → List Token → reader.Result → Prop
  | program => fun header ts (p : Program) => IsStmts header ts p.statements
  | stmtsUntil _ => IsStmts
  | block => IsBlock
  | stmt => IsStmt
  | print => IsStmtOf .print
  | declaration => IsDeclaration
  | assignment => IsAssignment
  | branch => IsStmtOf .branch
  | whileLoop => IsStmtOf .whileLoop
  | forLoop => IsStmtOf .forLoop
  | forEach => IsStmtOf .forEach
  | function => IsStmtOf .function
  | param => fun _ => IsParam
  | ret => IsStmtOf .ret
  | call => fun header ts (r : String × List Expr) => IsCall header ts r.1 r.2
  | headerExpr => fun _ => IsExpr true
  | nested => fun _ => IsExpr false
  | expr => IsExpr
  | level l => l.Derives
  | unary => IsUnary
  | power => IsPower
  | indexed => IsPostfix
  | primary | brackets => IsPrimary

theorem program_derived (c : Cursor) :
    Yields c.program (Derived c (fun ts p => IsStmts c.inHeader ts p.statements)) := by
  unfold Cursor.program
  apply (ReadStmt.stmts_derived _ c).bind
  rintro ⟨statements, c⟩ ⟨ts, rfl, hstatements⟩
  exact Yields.pure ⟨ts, rfl, hstatements⟩

theorem branch_derived (c : Cursor) :
    Yields c.branch (Derived c (IsStmtOf .branch c.inHeader)) := by
  unfold Cursor.branch
  apply (ReadStmt.branch_derived _ c).bind
  rintro ⟨⟨test, body, rest⟩, after⟩ ⟨ts, rfl, hbranch⟩
  obtain ⟨t, ts, rfl⟩ := hbranch.exists_cons
  exact Yields.pure ⟨t :: ts, rfl, .branch hbranch, .branch⟩

theorem derived (reader : Reader) (c : Cursor) :
    Yields (reader.read c) (Derived c (reader.Derives c.inHeader)) := by
  cases reader with
  | program => exact program_derived c
  | stmtsUntil terminals => exact ReadStmt.stmtsUntil_derived _ terminals c
  | block => exact ReadStmt.block_derived _ c
  | stmt => exact ReadStmt.stmt_derived _ c
  | print => exact c.print_derived
  | declaration => exact c.declaration_derived
  | assignment => exact c.assignment_derived
  | branch => exact branch_derived c
  | whileLoop => exact ReadStmt.whileLoop_derived _ c
  | forLoop => exact ReadStmt.forLoop_derived _ c
  | forEach => exact ReadStmt.forEach_derived _ c
  | function => exact ReadStmt.function_derived _ c
  | param => exact c.param_derived
  | ret => exact c.ret_derived
  | call => exact ReadExpr.call_derived _ c
  | headerExpr => exact c.headerExpr_derived
  | nested => exact ReadExpr.nested_derived _ c
  | expr => exact ReadExpr.expr_derived _ c
  | level l => exact ReadExpr.level_derived _ l c
  | unary => exact ReadExpr.unary_derived _ c
  | power => exact ReadExpr.power_derived _ c
  | indexed => exact ReadExpr.indexed_derived _ c
  | primary => exact ReadExpr.primary_derived _ c
  | brackets => exact ReadExpr.brackets_derived _ c

end Reader

/-- What a reader gives is derived from the tokens that it takes off the front, and
the header mode is the one it started with. -/
theorem read_derives {reader : Reader} {c after : Cursor} {result : reader.Result}
    (h : reader.read c = .ok (result, after)) :
    ∃ taken, c.rest = taken ++ after.rest ∧ after.inHeader = c.inHeader ∧
      reader.Derives c.inHeader taken result := by
  obtain ⟨taken, hc, hderives⟩ := (reader.derived c).ok h
  refine ⟨taken, ?_, ?_, hderives⟩
  · rw [hc]
  · rw [hc]

/-- `if (g: 1): speak -2 ** [x,]; else if y: stop` -/
def chainedBranch : List Token :=
  [⟨.keyword .if_, ⟨1, 1⟩⟩, ⟨.symbol .openParen, ⟨1, 4⟩⟩, ⟨.name "g", ⟨1, 5⟩⟩,
   ⟨.symbol .colon, ⟨1, 6⟩⟩, ⟨.int "1", ⟨1, 8⟩⟩, ⟨.symbol .closeParen, ⟨1, 9⟩⟩,
   ⟨.symbol .colon, ⟨1, 10⟩⟩, ⟨.keyword .speak, ⟨1, 12⟩⟩, ⟨.symbol .minus, ⟨1, 18⟩⟩,
   ⟨.int "2", ⟨1, 19⟩⟩, ⟨.symbol .pow, ⟨1, 21⟩⟩, ⟨.symbol .openBracket, ⟨1, 24⟩⟩,
   ⟨.name "x", ⟨1, 25⟩⟩, ⟨.symbol .comma, ⟨1, 26⟩⟩, ⟨.symbol .closeBracket, ⟨1, 27⟩⟩,
   ⟨.symbol .semicolon, ⟨1, 28⟩⟩, ⟨.keyword .else_, ⟨1, 30⟩⟩, ⟨.keyword .if_, ⟨1, 35⟩⟩,
   ⟨.name "y", ⟨1, 38⟩⟩, ⟨.symbol .colon, ⟨1, 39⟩⟩, ⟨.keyword .stop, ⟨1, 41⟩⟩]

/-- The tree of these tokens: the sign is outside the power, the brackets hold an array of
one element, and the second `if` continues the branch. -/
def chainedBranchTree : Program :=
  ⟨[.branch ⟨1, 1⟩ (.call ⟨1, 5⟩ "g" [.int ⟨1, 8⟩ 1])
      [.print ⟨1, 12⟩ (.unary ⟨1, 18⟩ .sub (.binary ⟨1, 19⟩ .pow (.int ⟨1, 19⟩ 2)
        (.array ⟨1, 24⟩ [.var ⟨1, 25⟩ "x"])))]
      (.branch ⟨1, 35⟩ (.var ⟨1, 38⟩ "y") [] .absent)]⟩

theorem chainedBranch_derives :
    let eof : Token := ⟨.eof, ⟨1, 45⟩⟩
    Reader.program.read ⟨chainedBranch ++ [eof], false⟩ =
      .ok (chainedBranchTree, ⟨[eof], false⟩) ∧
    ∃ taken, chainedBranch ++ [eof] = taken ++ [eof] ∧
      Reader.program.Derives false taken chainedBranchTree := by
  intro eof
  have hread : Reader.program.read ⟨chainedBranch ++ [eof], false⟩ =
      .ok (chainedBranchTree, ⟨[eof], false⟩) := rfl
  obtain ⟨taken, htaken, _, hderives⟩ := read_derives hread
  exact ⟨hread, taken, htaken, hderives⟩

end Squishc.Surface
