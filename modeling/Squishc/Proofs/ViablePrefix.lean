import Squishc.Proofs.PlanCompletion

/-!
# Faults are at the first impossible token

Every rule of the grammar is viable: what it has taken can be completed.  A single
name completes an expression, `= x;` completes a name at the beginning of a statement,
and `stop` completes a body.  A body is closed by `stop`, which also ends every
statement, and an expression by one of the lexemes that end every expression.

So the tokens in front of a fault begin a program.  Which token the fault is at does
not depend on the places of the tokens, so that its index is well defined.

Main results:

- Theorem `LineRule.rule_viable`: the rules for parts of a line are viable.
- Theorem `StmtRule.rule_viable`: so are the rules for statements.
- Theorem `fault_completable`: the tokens in front of a fault, some more tokens and the
  end mark are a program.
-/

namespace Squishc.Surface

open Layer Plan

/-! ## Fillers -/

/-- A name that stands for any expression. -/
def filler : Token := ⟨.name "x", .unknown⟩

/-- The token of a symbol. -/
def mark (s : Symbol) : Token := ⟨.symbol s, .unknown⟩

/-- The token of a reserved word. -/
def word (k : Keyword) : Token := ⟨.keyword k, .unknown⟩

/-- Lexemes that end every expression.  A colon does so in a header. -/
inductive EndsExpr : Bool → Lexeme → Prop
  | semicolon (mode : Bool) : EndsExpr mode (.symbol .semicolon)
  | closeParen (mode : Bool) : EndsExpr mode (.symbol .closeParen)
  | closeBracket (mode : Bool) : EndsExpr mode (.symbol .closeBracket)
  | dot (mode : Bool) : EndsExpr mode (.symbol .dot)
  | otherwise (mode : Bool) : EndsExpr mode (.keyword .otherwise)
  | fastfwd (mode : Bool) : EndsExpr mode (.keyword .fastfwd)
  | colon : EndsExpr true (.symbol .colon)

theorem EndsExpr.op?_eq_none {mode : Bool} {l : Lexeme} (h : EndsExpr mode l) (k : Level) :
    k.op? l = none := by
  cases h <;> cases k <;> rfl

theorem EndsExpr.startsExpr_eq {mode : Bool} {l : Lexeme} (h : EndsExpr mode l) :
    startsExpr l = false := by
  cases h <;> rfl

namespace LineRule

/-- The rules for parts of a line. -/
def layer : Layer LineRule Empty := ⟨plan, nofun, advances, nofun⟩

/-- Lexemes that end what a rule takes. -/
def closes : LineRule → Bool → Lexeme → Prop
  | .nested => fun _ => EndsExpr false
  | .elements _ => fun _ l => l = .symbol .closeBracket
  | .moreParams => fun _ l => l = .symbol .colon
  | _ => EndsExpr

theorem fills_nothing (r : LineRule) (h : r.advances = false) :
    layer.Fills (.rule r) r.closes [] := by
  rintro mode _ hcloses ⟨_, pos⟩ rest rfl
  refine ⟨1, ?_⟩
  cases r with
  | levelRest l => cases l <;> cases hcloses <;> rfl
  | indexes | arguments | elements | moreParams => cases hcloses <;> rfl
  | _ => cases h

theorem unary_fills : layer.Fills (.rule .unary) EndsExpr [filler] := by
  rintro mode _ hcloses ⟨_, pos⟩ rest rfl
  refine ⟨5, ?_⟩
  cases mode <;> cases hcloses <;> rfl

theorem level_fills_of_operand {l : Level}
    (h : layer.Fills (.rule (.operand l)) EndsExpr [filler]) :
    layer.Fills (.rule (.level l)) EndsExpr [filler] :=
  fun mode k hk =>
    Takes.rule ((h mode k hk).seq_silent (fills_nothing (.levelRest l) rfl mode k hk))

theorem operand_fills (l : Level) : layer.Fills (.rule (.operand l)) EndsExpr [filler] := by
  have hproduct : layer.Fills (.rule (.operand .product)) EndsExpr [filler] :=
    fun mode k hk => Takes.rule (unary_fills mode k hk)
  have hsum : layer.Fills (.rule (.operand .sum)) EndsExpr [filler] :=
    fun mode k hk => Takes.rule (level_fills_of_operand hproduct mode k hk)
  have hcomparison : layer.Fills (.rule (.operand .comparison)) EndsExpr [filler] :=
    fun mode k hk => Takes.rule (level_fills_of_operand hsum mode k hk)
  have hconjunction : layer.Fills (.rule (.operand .conjunction)) EndsExpr [filler] :=
    fun mode k hk => Takes.rule (level_fills_of_operand hcomparison mode k hk)
  cases l with
  | product => exact hproduct
  | sum => exact hsum
  | comparison => exact hcomparison
  | conjunction => exact hconjunction
  | disjunction => exact fun mode k hk => Takes.rule (level_fills_of_operand hconjunction mode k hk)

theorem level_fills (l : Level) : layer.Fills (.rule (.level l)) EndsExpr [filler] :=
  level_fills_of_operand (operand_fills l)

theorem expr_fills : layer.Fills (.rule .expr) EndsExpr [filler] := by
  refine fun mode l hl => Takes.rule ((level_fills .disjunction mode l hl).seq_silent ?_)
  exact Takes.ifAt_no (by cases hl <;> decide) Takes.done

theorem nested_fills : layer.Fills (.rule .nested) (closes .nested) [filler] :=
  fun _ l hl => Takes.rule (expr_fills false l hl).inMode

section Plans

variable {fuel : Nat} (ih : ∀ r : LineRule, layer.Viable fuel (.rule r) r.closes)
include ih

theorem filled_nothing (r : LineRule) (h : r.advances = false) :
    layer.Filled fuel (.rule r) r.closes [] :=
  ⟨ih r, fills_nothing r h⟩

theorem expr_viable : layer.Viable fuel LineRule.expr.plan EndsExpr := by
  have halternate := Filled.after (.keyword .otherwise) (word .otherwise) rfl
    ⟨ih .expr, expr_fills⟩
  have htest := (Filled.mk (ih (.level .disjunction)) (level_fills _)).seq halternate
    (fun mode _ _ => .otherwise mode) (.inl Advances.after)
  have hoptional := Filled.optional (.keyword .if_)
    (Viable.after (.keyword .if_) htest.viable htest.fills) Advances.after
    (fun _ _ hl => by cases hl <;> decide)
  exact (ih (.level .disjunction)).seq hoptional.viable hoptional.fills (fun _ _ => id)
    (.inr fun _ _ => id)

theorem operand_viable (l : Level) : layer.Viable fuel (LineRule.operand l).plan EndsExpr := by
  cases l with
  | product => exact ih .unary
  | disjunction => exact ih (.level .conjunction)
  | conjunction => exact ih (.level .comparison)
  | comparison => exact ih (.level .sum)
  | sum => exact ih (.level .product)

theorem levelRest_viable (l : Level) :
    layer.Viable fuel (LineRule.levelRest l).plan EndsExpr := by
  have hrest : layer.Filled fuel (if l.chains then rule (.levelRest l) else done) EndsExpr [] := by
    split
    · exact filled_nothing ih (.levelRest l) rfl
    · exact ⟨Viable.done, fun _ _ _ => Takes.done⟩
  have hoperand := (Filled.mk (ih (.operand l)) (operand_fills l)).seq hrest (fun _ _ => id)
    (.inr fun _ _ => id)
  have hmore := (Viable.skip : layer.Viable fuel skip fun _ _ => True).seq hoperand.viable
    hoperand.fills (fun _ _ _ => trivial) (.inl (.inl rfl))
  refine Viable.look fun c => ?_
  by_cases hop : (c.lexeme?.bind l.op?).isSome = true
  · rw [if_pos hop]
    exact (hmore c).look (fun _ => if_pos hop) (.inl (.inl trivial))
  · rw [if_neg hop]
    refine (Viable.done c).look (fun _ => if_neg hop) (.inr fun _ k hk => if_neg ?_)
    simp [hk.op?_eq_none l]

theorem unary_viable : layer.Viable fuel LineRule.unary.plan EndsExpr := by
  have hsigned := (Viable.skip : layer.Viable fuel skip fun _ _ => True).seq (ih .unary)
    unary_fills (fun _ _ _ => trivial) (.inl rfl)
  refine Viable.look fun c => ?_
  split
  · rename_i hop
    exact (hsigned c).look (fun _ => if_pos hop) (.inl (.inl trivial))
  · rename_i hop
    exact (ih .power c).look (fun _ => if_neg hop) (.inl rfl)

theorem power_viable : layer.Viable fuel LineRule.power.plan EndsExpr := by
  have hoptional := Filled.optional (.symbol .pow)
    (Viable.after (.symbol .pow) (ih .unary) unary_fills) Advances.after
    (fun _ _ hl => by cases hl <;> decide)
  exact (ih .indexed).seq hoptional.viable hoptional.fills (fun _ _ => id) (.inr fun _ _ => id)

theorem indexes_viable : layer.Viable fuel LineRule.indexes.plan EndsExpr := by
  have hnext := Filled.after (.symbol .closeBracket) (mark .closeBracket) rfl
    (filled_nothing ih .indexes rfl)
  have hindex := (Filled.mk (ih .nested) nested_fills).seq hnext
    (fun _ _ _ => .closeBracket false) (.inl Advances.after)
  exact (Filled.optional (.symbol .openBracket)
    (Viable.after (.symbol .openBracket) hindex.viable hindex.fills) Advances.after
    (fun _ _ hl => by cases hl <;> decide)).viable

theorem named_fate {c : Cursor} {text : String} (hname : c.lexeme? = some (.name text)) :
    layer.Fate named EndsExpr c (layer.exec fuel named c) := by
  obtain ⟨t, rest, mode, rfl, ht⟩ := Cursor.exists_of_lexeme? hname
  have hplain : ∀ l, EndsExpr mode l → layer.Takes named mode [t] l := by
    intro l hl
    refine Takes.look_one ?_
    rw [if_neg (by cases mode <;> cases hl <;> decide)]
    exact Takes.takeName (by rw [ht]; rfl)
  rw [named, Layer.exec, Plan.exec]
  split
  · rename_i hcall
    exact (ih .call _).look_second (if_pos hcall) rfl
      (fun t' rest' hrest => ⟨[], by obtain ⟨rfl, -⟩ := List.cons.inj hrest; exact hplain⟩)
      (fun t' rest' l hrest _ hl _ => by obtain ⟨rfl, -⟩ := List.cons.inj hrest; exact hplain l hl)
  · rename_i hcall
    exact (Viable.takeName _).look_second (if_neg hcall) trivial
      (fun t' rest' hrest => ⟨[], by obtain ⟨rfl, -⟩ := List.cons.inj hrest; exact hplain⟩)
      (fun t' rest' l hrest _ hl _ => by obtain ⟨rfl, -⟩ := List.cons.inj hrest; exact hplain l hl)

theorem grouped_viable : layer.Viable fuel grouped EndsExpr := by
  have hclosed : layer.Filled fuel _ EndsExpr _ := (Filled.mk (ih .nested) nested_fills).seq
    (Filled.take (.symbol .closeParen) (mark .closeParen) rfl)
    (fun _ _ _ => .closeParen false) (.inl trivial)
  exact Viable.after _ hclosed.viable hclosed.fills

theorem primary_viable : layer.Viable fuel LineRule.primary.plan EndsExpr := by
  refine Viable.look fun c => ?_
  split
  · rename_i digits hl
    exact (Viable.takeInt c).look (fun _ => by rw [hl]) (.inl trivial)
  · rename_i numeral hl
    exact (Viable.skip c).look (fun _ => by rw [hl]) (.inl trivial)
  · rename_i value hl
    exact (Viable.skip c).look (fun _ => by rw [hl]) (.inl trivial)
  · rename_i hl
    exact (Viable.skip c).look (fun _ => by rw [hl]) (.inl trivial)
  · rename_i hl
    exact (Viable.skip c).look (fun _ => by rw [hl]) (.inl trivial)
  · rename_i text hl
    exact (named_fate ih hl).look (fun _ => by rw [hl]) (.inl named_advances)
  · rename_i hl
    exact (grouped_viable ih c).look (fun _ => by rw [hl]) (.inl Advances.after)
  · rename_i hl
    exact (ih .brackets c).look (fun _ => by rw [hl]) (.inl rfl)
  · rename_i hl
    exact (Viable.fail _ c).look (fun _ => by split <;> simp_all) (.inl trivial)

theorem call_viable : layer.Viable fuel LineRule.call.plan EndsExpr := by
  have hsome := (ih .expr).seq (ih .arguments) (fills_nothing .arguments rfl) (fun _ _ => id)
    (.inr fun _ _ => id)
  have hargs : layer.Filled fuel (look fun x _ _ =>
      if x.any startsExpr then seq (rule .expr) (rule .arguments) else done) EndsExpr [] := by
    refine ⟨Viable.look fun c => ?_, fun mode l hl => Takes.look fun _ => ?_⟩
    · split
      · rename_i hstarts
        exact (hsome c).look (fun _ => if_pos hstarts) (.inl (.inl rfl))
      · rename_i hstarts
        refine (Viable.done c).look (fun _ => if_neg hstarts) (.inr fun _ l hl => if_neg ?_)
        simp [hl.startsExpr_eq]
    · rw [if_neg (by simp [firstOf, hl.startsExpr_eq])]
      exact Takes.done
  have hcolon := Filled.after (.symbol .colon) (mark .colon) rfl hargs
  exact (Viable.takeName : layer.Viable fuel takeName fun _ _ => True).seq hcolon.viable
    hcolon.fills (fun _ _ _ => trivial) (.inl Advances.after)

theorem arguments_viable : layer.Viable fuel LineRule.arguments.plan EndsExpr := by
  have hnext := (Filled.mk (ih .expr) expr_fills).seq (filled_nothing ih .arguments rfl)
    (fun _ _ => id) (.inr fun _ _ => id)
  exact (Filled.optional (.symbol .comma)
    (Viable.after (.symbol .comma) hnext.viable hnext.fills) Advances.after
    (fun _ _ hl => by cases hl <;> decide)).viable

theorem brackets_viable : layer.Viable fuel LineRule.brackets.plan EndsExpr := by
  have hclose : layer.Filled fuel (take (.symbol .closeBracket)) EndsExpr [mark .closeBracket] :=
    Filled.take (.symbol .closeBracket) (mark .closeBracket) rfl
  have hrest : layer.Filled fuel (ifAt (.symbol .comma)
      (seq (rule (.elements true)) (take (.symbol .closeBracket)))
      (take (.symbol .closeBracket))) EndsExpr [mark .closeBracket] := by
    refine ⟨Viable.ifAt ?_ hclose.viable (.inr trivial) (.inl trivial), fun mode l hl => ?_⟩
    · exact (ih (.elements true)).seq hclose.viable hclose.fills (fun _ _ _ => rfl) (.inl trivial)
    · exact Takes.ifAt_no Bool.false_ne_true (hclose.fills mode l hl)
  have hinside := (Filled.mk (ih .nested) nested_fills).seq hrest (fun _ _ _ => .closeBracket false)
    (.inl (Advances.ifAt (.inr trivial) trivial))
  exact Viable.after _ (hclose.viable.ifAt hinside.viable trivial (.inl (.inl rfl)))
    fun mode l hl => Takes.ifAt_yes rfl (hclose.fills mode l hl)

theorem elements_viable (single : Bool) :
    layer.Viable fuel (LineRule.elements single).plan (closes (.elements single)) := by
  have hnext := (Filled.mk (ih .nested) nested_fills).seq (filled_nothing ih (.elements false) rfl)
    (fun _ _ hl => hl ▸ .closeBracket false) (.inr fun _ _ hl => hl ▸ .closeBracket false)
  have hbehind : layer.Filled fuel (look fun x _ _ =>
      if single && x.any (Terminal.symbol .closeBracket).isMetBy then done
      else seq (rule .nested) (rule (.elements false))) (closes (.elements single)) [filler] := by
    refine ⟨Viable.look fun c => ?_, fun mode l hl => Takes.look fun _ => ?_⟩
    · split
      · rename_i hlast
        obtain ⟨rfl, -⟩ := Bool.and_eq_true_iff.mp hlast
        exact (Viable.done c).look (fun _ => if_pos hlast) (.inr fun _ l hl => hl ▸ rfl)
      · rename_i hlast
        exact (hnext.viable c).look (fun _ => if_neg hlast) (.inl (.inl rfl))
    · rw [if_neg (by cases single <;> exact Bool.false_ne_true)]
      exact hnext.fills mode l hl
  exact (Filled.optional (.symbol .comma)
    (Viable.after (.symbol .comma) hbehind.viable hbehind.fills) Advances.after
    (fun _ _ hl => by subst hl; decide)).viable

theorem moreParams_viable :
    layer.Viable fuel LineRule.moreParams.plan (closes .moreParams) := by
  have hnext := (Filled.takeName filler rfl : layer.Filled fuel takeName (fun _ _ => True) _).seq
    (filled_nothing ih .moreParams rfl) (fun _ _ _ => trivial) (.inr fun _ _ _ => trivial)
  exact (Filled.optional (.symbol .comma)
    (Viable.after (.symbol .comma) hnext.viable hnext.fills) Advances.after
    (fun _ _ hl => by subst hl; decide)).viable

/-- The plans are viable if the rules are. -/
theorem plan_viable (r : LineRule) :
    layer.Viable fuel r.plan r.closes := by
  cases r with
  | expr => exact expr_viable ih
  | nested => exact (ih .expr).inMode
  | level l =>
    exact (ih (.operand l)).seq (ih (.levelRest l)) (fills_nothing (.levelRest l) rfl)
      (fun _ _ => id) (.inr fun _ _ => id)
  | operand l => exact operand_viable ih l
  | levelRest l => exact levelRest_viable ih l
  | unary => exact unary_viable ih
  | power => exact power_viable ih
  | indexed =>
    exact (ih .primary).seq (ih .indexes) (fills_nothing .indexes rfl)
      (fun _ _ => id) (.inr fun _ _ => id)
  | indexes => exact indexes_viable ih
  | primary => exact primary_viable ih
  | call => exact call_viable ih
  | arguments => exact arguments_viable ih
  | brackets => exact brackets_viable ih
  | elements single => exact elements_viable ih single
  | moreParams => exact moreParams_viable ih

end Plans

theorem rule_viable (fuel : Nat) (r : LineRule) : layer.Viable fuel (.rule r) r.closes :=
  viable_run plan_advances (fun _ => plan_viable) fuel r

end LineRule

/-! ## Statements -/

/-- Lexemes that end every statement. -/
def EndsStmt (_ : Bool) (l : Lexeme) : Prop := l = .keyword .stop ∨ l = .eof

namespace StmtRule

/-- The rules for statements. -/
def layer : Layer StmtRule LineRule := ⟨plan, LineRule.full, advances, LineRule.advances⟩

/-- Lexemes that end what a rule takes. -/
def closes : StmtRule → Bool → Lexeme → Prop
  | .stmtsUntil terminals => fun _ l => l = .keyword .stop ∧ .keyword .stop ∈ terminals
  | _ => EndsStmt

variable {fuel : Nat} {any : Bool → Lexeme → Prop}

theorem takes_lower {r : LineRule} {mode : Bool} {ts : List Token} {l : Lexeme}
    (h : LineRule.layer.Takes (.rule r) mode ts l) : layer.Takes (.lower r) mode ts l := by
  intro t rest ht
  obtain ⟨fuel, h⟩ := h t rest ht
  exact ⟨0, LineRule.full_eq_of_run h⟩

theorem lower_viable (r : LineRule) : layer.Viable fuel (.lower r) r.closes :=
  fun c => (LineRule.rule_viable c.fuelFor r c).imp id (fun _ => id) fun _ _ => takes_lower

theorem expr_filled : layer.Filled fuel (.lower .expr) EndsExpr [filler] :=
  ⟨lower_viable .expr, fun mode l hl => takes_lower (LineRule.expr_fills mode l hl)⟩

theorem headerExpr_filled : layer.Filled fuel headerExpr (fun _ => EndsExpr true) [filler] :=
  expr_filled.inMode

theorem valueRest_filled : layer.Filled fuel valueRest any [filler, mark .semicolon] :=
  expr_filled.seq (Filled.take _ (mark .semicolon) rfl) (fun mode _ _ => .semicolon mode)
    (.inl trivial)

theorem bindingRest_filled :
    layer.Filled fuel bindingRest any [mark .assign, filler, mark .semicolon] :=
  Filled.after _ (mark .assign) rfl valueRest_filled

theorem assignment_filled :
    layer.Filled fuel assignment any [filler, mark .assign, filler, mark .semicolon] :=
  (Filled.takeName filler rfl : layer.Filled fuel takeName (fun _ _ => True) _).seq
    bindingRest_filled (fun _ _ _ => trivial) (.inl Advances.after)

theorem declaration_filled : layer.Filled fuel declaration any
    [word .pencil, filler, mark .assign, filler, mark .semicolon] :=
  Filled.after _ (word .pencil) rfl assignment_filled

theorem exit_viable : layer.Viable fuel exit any :=
  (Filled.after _ (word .break_) rfl (Filled.take _ (mark .semicolon) rfl)).viable

theorem ret_viable : layer.Viable fuel ret any :=
  Viable.after _ (Viable.ifAt (Viable.take _) valueRest_filled.viable trivial (.inl (.inl rfl)))
    (fun _ _ _ => Takes.ifAt_yes rfl (Takes.take rfl : layer.Takes _ _ [mark .semicolon] _))

theorem callStmt_viable : layer.Viable fuel callStmt any :=
  (lower_viable .call).seq (Viable.take _)
    (fun _ _ _ => (Takes.take rfl : layer.Takes _ _ [mark .semicolon] _))
    (fun mode _ _ => .semicolon mode) (.inl trivial)

theorem params_filled : layer.Filled fuel params (fun _ l => l = .symbol .colon) [] := by
  have hsome := (Viable.takeName : layer.Viable fuel takeName fun _ _ => True).seq
    (lower_viable .moreParams)
    (fun mode l hl => takes_lower (LineRule.fills_nothing .moreParams rfl mode l hl))
    (fun _ _ _ => trivial) (.inr fun _ _ _ => trivial)
  refine ⟨Viable.look fun c => ?_, fun mode l hl => Takes.look fun _ => ?_⟩
  · split
    · rename_i hname
      exact (hsome c).look (fun _ => if_pos hname) (.inl (.inl trivial))
    · rename_i hname
      exact (Viable.done c).look (fun _ => if_neg hname) (.inr fun _ l hl => by subst hl; rfl)
  · subst hl
    exact Takes.done

theorem stmtsUntil_fills (terminals : List Terminal) :
    layer.Fills (.rule (.stmtsUntil terminals)) (closes (.stmtsUntil terminals)) [] := by
  rintro mode _ ⟨rfl, hstop⟩
  refine Takes.rule (Takes.look fun _ => ?_)
  rw [if_pos (List.any_eq_true.mpr ⟨_, hstop, rfl⟩)]
  exact Takes.done

theorem block_fills : layer.Fills (.rule .block) any [word .stop] :=
  fun mode _ _ => Takes.rule (Takes.seq
    (stmtsUntil_fills [.keyword .stop] mode _ ⟨rfl, List.mem_singleton_self _⟩) (Takes.take rfl))

section Plans

variable (ih : ∀ r : StmtRule, layer.Viable fuel (.rule r) r.closes)
include ih

theorem body_filled : layer.Filled fuel body EndsStmt [mark .colon, word .stop] :=
  Filled.after _ (mark .colon) rfl ⟨ih .block, block_fills⟩

/-- A name may begin an assignment, a call or a loop; an assignment completes it. -/
theorem named_fate {t : Token} {rest : List Token} {mode : Bool} (hname : isName t.lexeme = true) :
    layer.Fate wordless EndsStmt ⟨t :: rest, mode⟩
      (layer.exec fuel wordless ⟨t :: rest, mode⟩) := by
  have hbinding : layer.Filled fuel bindingRest EndsStmt _ := bindingRest_filled
  have hcomplete : ∀ t' rest', t :: rest = t' :: rest' → ∃ more, ∀ l, EndsStmt mode l →
      layer.Takes wordless mode (t' :: more) l := by
    rintro _ _ ⟨⟩
    refine ⟨[mark .assign, filler, mark .semicolon], fun l hl => Takes.look_two ?_⟩
    rw [if_pos (by simp only [Option.any, hname]; rfl)]
    exact (Takes.takeName hname).seq (hbinding.fills mode l hl)
  rw [wordless, Layer.exec, Plan.exec]
  split
  · rename_i hassign
    refine (assignment_filled.viable _).look_second (if_pos hassign) (.inl trivial) hcomplete ?_
    rintro _ _ l ⟨⟩ hexec
    -- an assignment has more than one token
    have hlength := Viable.length_seq (Viable.takeName : layer.Viable fuel _ EndsStmt)
      hbinding.viable trivial Advances.after hexec
    simp only [List.length_cons] at hlength
    omega
  · rename_i hassign
    split
    · rename_i hcolon
      refine (callStmt_viable _).look_second ((if_neg hassign).trans (if_pos hcolon)) (.inl rfl)
        hcomplete ?_
      rintro _ _ l ⟨⟩ hexec
      have hlength := Viable.length_seq (lower_viable .call)
        (Viable.take (.symbol .semicolon) : layer.Viable fuel _ EndsStmt) rfl trivial hexec
      simp only [List.length_cons] at hlength
      omega
    · rename_i hcolon
      refine (ih .forEach _).look_second ((if_neg hassign).trans (if_neg hcolon)) rfl hcomplete ?_
      rintro _ _ l ⟨⟩ - hl htakes
      -- the lexemes that end a statement do not turn the choice
      refine Takes.look_one ?_
      rwa [if_neg (by rcases hl with rfl | rfl <;> simp [Terminal.isMetBy]),
        if_neg (by rcases hl with rfl | rfl <;> simp [Terminal.isMetBy])]

theorem wordless_viable : layer.Viable fuel wordless EndsStmt := by
  rintro ⟨_ | ⟨t, rest⟩, mode⟩
  · exact (ih .forEach).look_at (fun _ => rfl) rfl
  · by_cases hname : isName t.lexeme = true
    · exact named_fate ih hname
    · refine (ih .forEach).look_at (fun y => ?_) rfl
      rw [Cursor.lexeme?_cons]
      simp [hname]

theorem alternative_filled :
    layer.Filled fuel alternative EndsStmt [word .else_, word .stop] := by
  refine Filled.after _ (word .else_) rfl ⟨Viable.ifAt (ih .branch) (ih .block) rfl (.inl rfl), ?_⟩
  exact fun mode l hl => Takes.ifAt_no Bool.false_ne_true (block_fills mode l hl)

omit ih in
theorem branchRest_advances : layer.Advances branchRest := by
  intro x y _
  dsimp only
  split
  · exact Advances.after
  · exact Advances.ifAt Advances.after trivial

omit ih in
theorem branchRest_takes {t : Token} {mode : Bool} {l : Lexeme} (ht : t.lexeme = .keyword .stop)
    (hl : EndsStmt mode l) : layer.Takes branchRest mode [t] l := by
  refine Takes.look_one ?_
  rw [ht, if_neg (by rcases hl with rfl | rfl <;> decide)]
  exact Takes.ifAt_no (by rw [firstOf, ht]; decide) (Takes.take (by rw [ht]; rfl))

theorem branchRest_filled : layer.Filled fuel branchRest EndsStmt [word .stop] := by
  refine ⟨?_, fun _ _ hl => branchRest_takes rfl hl⟩
  have halternative := alternative_filled ih
  have hclosed : layer.Viable fuel (ifAt (.keyword .else_) alternative (take (.keyword .stop)))
      EndsStmt :=
    halternative.viable.ifAt (Viable.take _) Advances.after (.inl trivial)
  have hadvances : layer.Advances (ifAt (.keyword .else_) alternative (take (.keyword .stop))) :=
    Advances.ifAt Advances.after trivial
  rintro ⟨_ | ⟨t, rest⟩, mode⟩
  · exact hclosed.look_at (fun _ => rfl) hadvances
  · by_cases hstop : t.lexeme = .keyword .stop
    · -- a `stop` may close the branch or stand before an `else`; alone it closes
      have hcomplete : ∀ t' rest', t :: rest = t' :: rest' → ∃ more, ∀ l, EndsStmt mode l →
          layer.Takes branchRest mode (t' :: more) l := by
        rintro _ _ ⟨⟩
        exact ⟨[], fun l hl => branchRest_takes hstop hl⟩
      rw [branchRest, Layer.exec, Plan.exec]
      split
      · rename_i helse
        refine (Viable.after _ halternative.viable halternative.fills _).look_second
          (if_pos helse) Advances.after hcomplete ?_
        rintro _ _ l ⟨⟩ - hl -
        exact branchRest_takes hstop hl
      · rename_i helse
        refine (hclosed _).look_second (if_neg helse) hadvances hcomplete ?_
        rintro _ _ l ⟨⟩ - hl -
        exact branchRest_takes hstop hl
    · refine hclosed.look_at (fun y => if_neg ?_) hadvances
      rw [Cursor.lexeme?_cons]
      simp [Terminal.isMetBy, hstop]

theorem stmtsUntil_viable (terminals : List Terminal) :
    layer.Viable fuel (StmtRule.stmtsUntil terminals).plan (closes (.stmtsUntil terminals)) := by
  have hmore := (ih .stmt).seq (ih (.stmtsUntil terminals)) (stmtsUntil_fills terminals)
    (fun _ _ hl => .inl hl.1) (.inr fun _ _ hl => .inl hl.1)
  refine Viable.look fun c => ?_
  split
  · rename_i hmet
    refine (Viable.done c).look (fun _ => if_pos hmet) (.inr fun _ l hl => if_pos ?_)
    exact List.any_eq_true.mpr ⟨_, hl.2, by rw [hl.1]; rfl⟩
  · rename_i hmet
    split
    · rename_i hend
      refine (Viable.fail _ c).look (fun _ => ?_) (.inl trivial)
      rw [if_neg hmet, if_pos hend]
    · rename_i hend
      refine (hmore c).look (fun _ => ?_) (.inl (.inl rfl))
      rw [if_neg hmet, if_neg hend]

theorem branch_viable : layer.Viable fuel StmtRule.branch.plan EndsStmt := by
  have hbody := (Filled.mk (ih (.stmtsUntil [.keyword .stop, .keyword .else_]))
    (stmtsUntil_fills _)).seq (branchRest_filled ih) (fun _ _ _ => ⟨rfl, List.mem_cons_self⟩)
    (.inl branchRest_advances)
  have htest := headerExpr_filled.seq (Filled.after (.symbol .colon) (mark .colon) rfl hbody)
    (fun _ _ _ => .colon) (.inl Advances.after)
  exact Viable.after _ htest.viable htest.fills

theorem forLoop_viable : layer.Viable fuel StmtRule.forLoop.plan EndsStmt := by
  have hupdate : layer.Filled fuel (seq assignment (rule .block)) EndsStmt _ :=
    (assignment_filled : layer.Filled fuel assignment (fun _ _ => True) _).seq
      ⟨ih .block, block_fills⟩ (fun _ _ _ => trivial) (.inl rfl)
  have htest := headerExpr_filled.seq (Filled.after (.keyword .fastfwd) (word .fastfwd) rfl hupdate)
    (fun _ _ _ => .fastfwd true) (.inl Advances.after)
  have hinit := (declaration_filled : layer.Filled fuel declaration (fun _ _ => True) _).seq
    (Filled.after (.keyword .stop) (word .stop) rfl htest) (fun _ _ _ => trivial)
    (.inl Advances.after)
  exact Viable.after _ hinit.viable hinit.fills

theorem forEach_viable : layer.Viable fuel StmtRule.forEach.plan EndsStmt := by
  have hname := (Filled.takeName filler rfl : layer.Filled fuel takeName (fun _ _ => True) _).seq
    (body_filled ih) (fun _ _ _ => trivial) (.inl Advances.after)
  have hdot := Filled.after (.symbol .dot) (mark .dot) rfl
    (Filled.after (.keyword .loop) (word .loop) rfl hname)
  exact (lower_viable .indexed).inMode.seq hdot.viable hdot.fills (fun _ _ _ => .dot true)
    (.inl Advances.after)

theorem function_viable : layer.Viable fuel StmtRule.function.plan EndsStmt := by
  have hparams := params_filled.seq (body_filled ih) (fun _ _ _ => rfl) (.inl Advances.after)
  have hname := (Filled.takeName filler rfl : layer.Filled fuel takeName (fun _ _ => True) _).seq
    hparams (fun _ _ _ => trivial) (.inl (.inr Advances.after))
  exact Viable.after _ hname.viable hname.fills

/-- The plans are viable if the rules are. -/
theorem plan_viable (r : StmtRule) : layer.Viable fuel r.plan r.closes := by
  cases r with
  | stmt =>
    have hprint : layer.Viable fuel print EndsStmt :=
      (Filled.after _ (word .speak) rfl valueRest_filled).viable
    exact (Viable.ifAt_advances _ ⟨hprint, Advances.after⟩ <|
      Viable.ifAt_advances _ ⟨declaration_filled.viable, Advances.after⟩ <|
      Viable.ifAt_advances _ ⟨ih .branch, rfl⟩ <|
      Viable.ifAt_advances _ ⟨ih .whileLoop, rfl⟩ <|
      Viable.ifAt_advances _ ⟨ih .forLoop, rfl⟩ <|
      Viable.ifAt_advances _ ⟨ih .function, rfl⟩ <|
      Viable.ifAt_advances _ ⟨exit_viable, Advances.after⟩ <|
      Viable.ifAt_advances _ ⟨ret_viable, Advances.after⟩
        ⟨wordless_viable ih, wordless_advances⟩).1
  | stmtsUntil terminals => exact stmtsUntil_viable ih terminals
  | block =>
    exact (ih (.stmtsUntil [.keyword .stop])).seq (Viable.take _)
      (fun _ _ _ => (Takes.take rfl : layer.Takes _ _ [word .stop] _))
      (fun _ _ _ => ⟨rfl, List.mem_singleton_self _⟩) (.inl trivial)
  | branch => exact branch_viable ih
  | whileLoop =>
    have htest := headerExpr_filled.seq (body_filled ih) (fun _ _ _ => .colon)
      (.inl Advances.after)
    exact Viable.after _ htest.viable htest.fills
  | forLoop => exact forLoop_viable ih
  | forEach => exact forEach_viable ih
  | function => exact function_viable ih

end Plans

theorem rule_viable (fuel : Nat) (r : StmtRule) : layer.Viable fuel (.rule r) r.closes :=
  viable_run plan_advances (fun _ => plan_viable) fuel r

end StmtRule

/-! ## Programs -/

namespace ProgramRule

/-- The rule for a program. -/
def layer : Layer ProgramRule StmtRule := ⟨plan, StmtRule.full, advances, StmtRule.advances⟩

/-- The end mark ends a program. -/
def closes : ProgramRule → Bool → Lexeme → Prop
  | .stmts => fun _ l => l = .eof

variable {fuel : Nat}

theorem takes_lower {r : StmtRule} {mode : Bool} {ts : List Token} {l : Lexeme}
    (h : StmtRule.layer.Takes (.rule r) mode ts l) : layer.Takes (.lower r) mode ts l := by
  intro t rest ht
  obtain ⟨fuel, h⟩ := h t rest ht
  exact ⟨0, StmtRule.full_eq_of_run h⟩

theorem lower_viable (r : StmtRule) : layer.Viable fuel (.lower r) r.closes :=
  fun c => (StmtRule.rule_viable c.fuelFor r c).imp id (fun _ => id) fun _ _ => takes_lower

theorem stmts_fills : layer.Fills (.rule .stmts) (closes .stmts) [] := by
  rintro mode _ rfl
  exact Takes.rule (Takes.look fun _ => Takes.done)

theorem plan_viable (ih : ∀ r : ProgramRule, layer.Viable fuel (.rule r) r.closes)
    (r : ProgramRule) : layer.Viable fuel r.plan r.closes := by
  have hmore := (lower_viable .stmt).seq (ih .stmts) stmts_fills (fun _ _ hl => .inr hl)
    (.inr fun _ _ hl => .inr hl)
  refine Viable.look fun c => ?_
  split
  · rename_i hend
    exact (Viable.done c).look (fun _ => if_pos hend) (.inr fun _ _ hl => if_pos (by rw [hl]; rfl))
  · rename_i hend
    exact (hmore c).look (fun _ => if_neg hend) (.inl (.inl rfl))

theorem rule_viable (fuel : Nat) (r : ProgramRule) : layer.Viable fuel (.rule r) r.closes :=
  viable_run (fun r h => by cases r; cases h) (fun _ => plan_viable) fuel r

end ProgramRule

/-! ## The place of a fault -/

/-- Reading the tokens faults at the one with the given index, wherever they stand in the
text. -/
def FaultsAt (tokens : List Token) (what : Expected) (k : Nat) : Prop :=
  ∀ placed : List Token, placed.map Token.lexeme = tokens.map Token.lexeme →
    ∃ t, placed[k]? = some t ∧
      (Cursor.ofTokens placed).program = .error (.expected what t.lexeme t.pos)

/-- The lexemes of some tokens, each placed at its index. -/
def numbered (tokens : List Token) : List Token :=
  tokens.mapIdx fun i t => ⟨t.lexeme, ⟨i, 0⟩⟩

theorem map_lexeme_numbered (tokens : List Token) :
    (numbered tokens).map Token.lexeme = tokens.map Token.lexeme := by
  apply List.ext_getElem?
  intro i
  simp [numbered, List.getElem?_map, List.getElem?_mapIdx, Function.comp_def]

theorem pos_of_numbered {tokens : List Token} {i : Nat} {t : Token}
    (h : (numbered tokens)[i]? = some t) : t.pos = ⟨i, 0⟩ := by
  rw [numbered, List.getElem?_mapIdx] at h
  obtain ⟨t', -, rfl⟩ := Option.map_eq_some_iff.mp h
  rfl

/-- The index of a fault is unique, since the places of the tokens may tell them apart. -/
theorem FaultsAt.unique {tokens : List Token} {what what' : Expected} {j k : Nat}
    (hj : FaultsAt tokens what j) (hk : FaultsAt tokens what' k) : j = k := by
  obtain ⟨t, ht, hreadj⟩ := hj (numbered tokens) (map_lexeme_numbered tokens)
  obtain ⟨t', ht', hreadk⟩ := hk (numbered tokens) (map_lexeme_numbered tokens)
  rw [hreadj] at hreadk
  obtain ⟨-, -, hsame⟩ := ReadFault.expected.inj (Except.error.inj hreadk)
  rw [pos_of_numbered ht, pos_of_numbered ht'] at hsame
  exact Int.ofNat.inj (Pos.mk.inj hsame).1

/-- A fault is where the plan of a program halts. -/
theorem exists_halt {tokens : List Token} {what : Expected} {found : Lexeme} {pos : Pos}
    (h : (Cursor.ofTokens tokens).program = .error (.expected what found pos)) :
    ∃ d rest, ProgramRule.full .stmts (Cursor.ofTokens tokens) = .error (.missing what d) ∧
      d.rest = ⟨found, pos⟩ :: rest := by
  have hfollows : Follows (Cursor.ofTokens tokens).program
      (ProgramRule.full .stmts (Cursor.ofTokens tokens)) :=
    Reader.program.follows (Cursor.ofTokens tokens)
  generalize ProgramRule.full .stmts (Cursor.ofTokens tokens) = s at hfollows ⊢
  rcases s with (⟨what', ⟨_ | ⟨t, rest⟩, mode⟩⟩ | _ | _) | after
  · cases h.symm.trans hfollows.eq_error
  · cases h.symm.trans hfollows.eq_error
    exact ⟨_, rest, rfl, rfl⟩
  · cases h.symm.trans hfollows.eq_error
  · cases h.symm.trans hfollows.eq_error
  · obtain ⟨program, hok⟩ := hfollows.exists_ok
    cases h.symm.trans hok

/-- Behind the tokens of a halt, the plan of a program can be completed. -/
theorem exists_completion {tokens : List Token} {what : Expected} {d : Cursor}
    (h : ProgramRule.full .stmts (Cursor.ofTokens tokens) = .error (.missing what d)) :
    ∃ ts more, tokens = ts ++ d.rest ∧
      ProgramRule.layer.Takes (.rule .stmts) false (ts ++ more) .eof := by
  have hfate := ProgramRule.rule_viable (Cursor.ofTokens tokens).fuelFor .stmts
    (Cursor.ofTokens tokens)
  rw [show ProgramRule.layer.exec _ (.rule .stmts) (Cursor.ofTokens tokens) =
    .error (.missing what d) from h] at hfate
  obtain ⟨ts, htokens, hmore⟩ := hfate
  by_cases hts : ts = []
  · subst hts
    exact ⟨[], [], htokens, ProgramRule.stmts_fills false .eof rfl⟩
  · obtain ⟨more, hmore⟩ := hmore hts
    exact ⟨ts, more, htokens, hmore .eof rfl⟩

/-- A halt is at the same token wherever the tokens stand. -/
theorem faultsAt_of_halt {tokens ts : List Token} {what : Expected} {d : Cursor} {t : Token}
    {rest : List Token}
    (h : ProgramRule.full .stmts (Cursor.ofTokens tokens) = .error (.missing what d))
    (htokens : tokens = ts ++ d.rest) (hd : d.rest = t :: rest) :
    FaultsAt tokens what ts.length := by
  intro placed hplaced
  have halike : (Cursor.ofTokens tokens).Alike (Cursor.ofTokens placed) := ⟨hplaced.symm, rfl⟩
  have hmatches := ProgramRule.full_matches .stmts halike
  rw [h] at hmatches
  obtain ⟨⟨rest', mode⟩, hhalt, hrest⟩ := hmatches.exists_missing
  obtain ⟨ts', -, hplaced', -⟩ := exists_completion hhalt
  have hlength := congrArg List.length hplaced
  have hlength' := congrArg List.length hrest.1
  simp only [htokens, hplaced', hd, List.length_map, List.length_append, List.length_cons]
    at hlength hlength'
  cases rest' with
  | nil => cases hlength'
  | cons t' rest' =>
    have hts : ts'.length = ts.length := by omega
    refine ⟨t', by rw [hplaced', ← hts]; simp, ?_⟩
    have hfollows : Follows (Cursor.ofTokens placed).program
        (ProgramRule.full .stmts (Cursor.ofTokens placed)) :=
      Reader.program.follows (Cursor.ofTokens placed)
    rw [hhalt] at hfollows
    exact hfollows.eq_error

/-- The tokens in front of a fault begin a program: some tokens behind them complete one.
The fault is at the token with index `k` and at no other. -/
theorem fault_completable {tokens : List Token} {what : Expected} {found : Lexeme} {pos : Pos}
    (h : (Cursor.ofTokens tokens).program = .error (.expected what found pos)) :
    ∃ k, tokens[k]? = some ⟨found, pos⟩ ∧ (∀ j, FaultsAt tokens what j ↔ j = k) ∧
      ∃ completion : List Token, ∀ mark : Token, mark.lexeme = .eof → ∃ program,
        (Cursor.ofTokens (tokens.take k ++ completion ++ [mark])).program =
          .ok (program, ⟨[mark], false⟩) := by
  obtain ⟨d, rest, hhalt, hd⟩ := exists_halt h
  obtain ⟨ts, more, htokens, htakes⟩ := exists_completion hhalt
  have hfaults := faultsAt_of_halt hhalt htokens hd
  refine ⟨ts.length, ?_, fun j => ⟨fun hj => hj.unique hfaults, fun hj => hj ▸ hfaults⟩, more,
    fun mark hmark => ?_⟩
  · rw [htokens, hd]
    simp
  · obtain ⟨fuel, hrun⟩ := htakes mark [] hmark
    have hfollows := Reader.program.follows (Cursor.ofTokens (ts ++ more ++ [mark]))
    rw [show Reader.program.move (Cursor.ofTokens (ts ++ more ++ [mark])) = .ok ⟨[mark], false⟩
      from ProgramRule.full_eq_of_run hrun] at hfollows
    obtain ⟨program, hok⟩ := hfollows.exists_ok
    refine ⟨program, ?_⟩
    rw [htokens, List.take_left]
    exact hok

/-- `while a: b.loop c: d = [e, ;` -/
def brokenArray : List Token :=
  [⟨.keyword .while_, ⟨1, 1⟩⟩, ⟨.name "a", ⟨1, 7⟩⟩, ⟨.symbol .colon, ⟨1, 8⟩⟩, ⟨.name "b", ⟨1, 10⟩⟩,
   ⟨.symbol .dot, ⟨1, 11⟩⟩, ⟨.keyword .loop, ⟨1, 12⟩⟩, ⟨.name "c", ⟨1, 17⟩⟩,
   ⟨.symbol .colon, ⟨1, 18⟩⟩, ⟨.name "d", ⟨1, 20⟩⟩, ⟨.symbol .assign, ⟨1, 22⟩⟩,
   ⟨.symbol .openBracket, ⟨1, 24⟩⟩, ⟨.name "e", ⟨1, 25⟩⟩, ⟨.symbol .comma, ⟨1, 26⟩⟩,
   ⟨.symbol .semicolon, ⟨1, 28⟩⟩, ⟨.eof, ⟨1, 29⟩⟩]

theorem brokenArray_completable :
    (Cursor.ofTokens brokenArray).program =
      .error (.expected .expression (.symbol .semicolon) ⟨1, 28⟩) ∧
    ∃ k, brokenArray[k]? = some ⟨.symbol .semicolon, ⟨1, 28⟩⟩ ∧
      (∀ j, FaultsAt brokenArray .expression j ↔ j = k) ∧
      ∃ completion : List Token, ∀ mark : Token, mark.lexeme = .eof → ∃ program,
        (Cursor.ofTokens (brokenArray.take k ++ completion ++ [mark])).program =
          .ok (program, ⟨[mark], false⟩) := by
  have hread : (Cursor.ofTokens brokenArray).program =
      .error (.expected .expression (.symbol .semicolon) ⟨1, 28⟩) := rfl
  exact ⟨hread, fault_completable hread⟩

end Squishc.Surface
