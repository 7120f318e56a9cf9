import Squishc.Proofs.ReadLevels

/-!
# Reading printed expressions

Every reader of the grammar of expressions, put in front of the lexemes of a
printed expression, gives the expression back and stops behind these lexemes.
Inside an expression all parts stand in parentheses, so each of them is read by
the tightest reader, and how far the looser ones read on depends only on the
lexeme behind it.

Main results:

- Theorem `ReadsInside.primary`: an expression in parentheses is read by the
  tightest reader in any header mode.
- Theorem `call_reads`: a call is read with all its arguments.
- Theorem `readsInside_of_printable`: a printable expression is read back between
  parentheses.
-/

namespace Squishc.Surface

/-- Expressions that differ in their places only. -/
def Alike (e e' : Expr) : Prop := e'.unplaced = e.unplaced

/-- Lists of expressions that differ in their places only. -/
def AlikeAll (es es' : List Expr) : Prop := unplacedAll es' = unplacedAll es

/-! ## Expressions in parentheses -/

theorem start_of_lexeme {c : Cursor} {l : Lexeme} (hl : c.lexeme? = some l)
    (hsign : signOp? l = none) : c.lexeme?.bind signOp? = none := by
  rw [hl]
  exact hsign

section Wrapped

open ReadExpr

variable {floatText : Float → String} {e : Expr} {c after : Cursor} {l : Lexeme}

/-- The lexemes of an expression between parentheses are read as the expression. -/
def ReadsInside (floatText : Float → String) (e : Expr) : Prop :=
  ∀ c close : Cursor, Spans (e.lexemes floatText) c close → c.inHeader = false →
    close.lexeme? = some (.symbol .closeParen) →
      Reads (expr · c) (16 * (e.lexemes floatText).length) (Alike e) close

/-- Between parentheses calls are allowed, whatever the header mode. -/
theorem ReadsInside.primary (h : ReadsInside floatText e)
    (hspans : Spans (wrap (e.lexemes floatText)) c after) :
    Reads (primary · c) (16 * (e.lexemes floatText).length + 2) (Alike e) after := by
  rcases spans_wrap hspans with ⟨hopen, close, hinside, hclose, rfl⟩
  have hexpr := h _ _ (hinside.withHeader false) rfl hclose
  have hback := hinside.withHeader_back false
  have hexpect : close.expect (.symbol .closeParen) = .ok close.next :=
    Cursor.expect_eq hclose rfl
  apply Reads.succ
  intro fuel hfuel
  obtain ⟨k, rfl⟩ := Nat.exists_eq_add_of_le' (show 1 ≤ fuel by omega)
  rcases hexpr k (by omega) with ⟨e', he', halike⟩
  refine ⟨e', ?_, halike⟩
  simp [ReadExpr.primary, hopen, nested, he', bind, Except.bind, pure, Except.pure, hback, hexpect]

theorem wrapped_start (hspans : Spans (wrap (e.lexemes floatText)) c after) :
    c.lexeme?.bind signOp? = none :=
  start_of_lexeme hspans.1 rfl

theorem ReadsInside.unary (h : ReadsInside floatText e)
    (hspans : Spans (wrap (e.lexemes floatText)) c after) (hl : after.lexeme? = some l)
    (ht : tightness l < 6) :
    Reads (unary · c) (16 * (e.lexemes floatText).length + 5) (Alike e) after :=
  unary_of_primary (h.primary hspans) (wrapped_start hspans) hl ht

theorem ReadsInside.operand (h : ReadsInside floatText e)
    (hspans : Spans (wrap (e.lexemes floatText)) c after) (hl : after.lexeme? = some l)
    (k : Level) (ht : tightness l ≤ k.rank) :
    Reads (operand · k c) (16 * (e.lexemes floatText).length + 14) (Alike e) after := by
  have hrank : k.rank < 6 := by cases k <;> decide
  exact climb (h.unary hspans hl (by omega)) hl k ht

theorem ReadsInside.disjunction (h : ReadsInside floatText e)
    (hspans : Spans (wrap (e.lexemes floatText)) c after) (hl : after.lexeme? = some l)
    (ht : tightness l = 0) :
    Reads (level · .disjunction c) (16 * (e.lexemes floatText).length + 15) (Alike e) after :=
  level_of_operand (h.operand hspans hl .disjunction (by omega)) hl (by rw [ht]; decide)

theorem ReadsInside.expr (h : ReadsInside floatText e)
    (hspans : Spans (wrap (e.lexemes floatText)) c after) (hl : after.lexeme? = some l)
    (ht : tightness l = 0) (hif : l ≠ .keyword .if_) :
    Reads (expr · c) (16 * (e.lexemes floatText).length + 16) (Alike e) after :=
  expr_of_disjunction (h.disjunction hspans hl ht) hl hif

theorem ReadsInside.nested (h : ReadsInside floatText e)
    (hspans : Spans (wrap (e.lexemes floatText)) c after) (hl : after.lexeme? = some l)
    (ht : tightness l = 0) (hif : l ≠ .keyword .if_) :
    Reads (nested · c) (16 * (e.lexemes floatText).length + 17) (Alike e) after := by
  have hexpr := h.expr (hspans.withHeader false) hl ht hif
  have hback := hspans.withHeader_back false
  apply Reads.succ
  intro fuel hfuel
  rcases hexpr fuel hfuel with ⟨e', he', halike⟩
  refine ⟨e', ?_, halike⟩
  simp [ReadExpr.nested, he', bind, Except.bind, pure, Except.pure, hback]

end Wrapped

/-! ## Lists of expressions -/

section Lists

open ReadExpr

variable {floatText : Float → String} {c after : Cursor} {l : Lexeme}

/-- Behind an item of a list stands a comma or what follows the whole list. -/
theorem behind_item {rest : List Expr} (hrest : Spans (moreLexemes floatText rest) c after)
    (hl : after.lexeme? = some l) (ht : tightness l = 0) (hif : l ≠ .keyword .if_) :
    ∃ x, c.lexeme? = some x ∧ tightness x = 0 ∧ x ≠ .keyword .if_ := by
  cases rest with
  | nil =>
    rw [show c = after from hrest]
    exact ⟨l, hl, ht, hif⟩
  | cons e rest => exact ⟨_, hrest.1, rfl, by decide⟩

theorem not_isAt_comma (hl : c.lexeme? = some l) (hcomma : l ≠ .symbol .comma) :
    c.isAt (.symbol .comma) = false := by
  rw [Cursor.isAt_eq hl]
  simpa [Terminal.isMetBy] using hcomma

theorem alikeAll_cons {e e' : Expr} {es es' : List Expr} (h : Alike e e') (hes : AlikeAll es es') :
    AlikeAll (e :: es) (e' :: es') := by
  simp only [AlikeAll, unplacedAll]
  rw [h, hes]

theorem arguments_reads {es : List Expr} (hes : ∀ e ∈ es, ReadsInside floatText e)
    (hspans : Spans (moreLexemes floatText es) c after) (hl : after.lexeme? = some l)
    (ht : tightness l = 0) (hif : l ≠ .keyword .if_) (hcomma : l ≠ .symbol .comma) :
    Reads (arguments · c) (16 * (moreLexemes floatText es).length + 1) (AlikeAll es) after := by
  induction es generalizing c with
  | nil =>
    cases hspans
    apply Reads.succ
    intro fuel _
    refine ⟨[], ?_, rfl⟩
    simp [arguments, not_isAt_comma hl hcomma, pure, Except.pure]
  | cons e rest ih =>
    rcases hspans with ⟨hfirst, hspans⟩
    rcases (spans_append _ _).mp hspans with ⟨between, hwrapped, hrest⟩
    rcases behind_item hrest hl ht hif with ⟨x, hx, htx, hifx⟩
    have hexpr := (hes e List.mem_cons_self).expr hwrapped hx htx hifx
    have hothers := ih (fun e he => hes e (List.mem_cons_of_mem _ he)) hrest
    apply Reads.succ
    intro fuel hfuel
    simp only [moreLexemes, wrap, List.length_cons, List.length_append] at hfuel
    rcases hexpr fuel (by omega) with ⟨e', he', halike⟩
    rcases hothers fuel (by omega) with ⟨others, hothers', halikes⟩
    refine ⟨e' :: others, ?_, alikeAll_cons halike halikes⟩
    simp [arguments, Cursor.isAt_eq hfirst, Terminal.isMetBy, he', hothers', bind, Except.bind,
      pure, Except.pure]

/-- A comma before a closing bracket is only taken after a single element, so it does
not matter whether elements behind the first are read as behind a single one. -/
theorem elements_reads {es : List Expr} (hes : ∀ e ∈ es, ReadsInside floatText e)
    (hspans : Spans (moreLexemes floatText es) c after)
    (hl : after.lexeme? = some (.symbol .closeBracket)) (single : Bool) :
    Reads (elements · single c) (16 * (moreLexemes floatText es).length + 1) (AlikeAll es)
      after := by
  induction es generalizing c single with
  | nil =>
    cases hspans
    apply Reads.succ
    intro fuel _
    refine ⟨[], ?_, rfl⟩
    simp [elements, not_isAt_comma hl (by decide), pure, Except.pure]
  | cons e rest ih =>
    rcases hspans with ⟨hfirst, hspans⟩
    rcases (spans_append _ _).mp hspans with ⟨between, hwrapped, hrest⟩
    rcases behind_item hrest hl rfl (by decide) with ⟨x, hx, htx, hifx⟩
    have hnested := (hes e List.mem_cons_self).nested hwrapped hx htx hifx
    have hothers := ih (fun e he => hes e (List.mem_cons_of_mem _ he)) hrest false
    apply Reads.succ
    intro fuel hfuel
    simp only [moreLexemes, wrap, List.length_cons, List.length_append] at hfuel
    rcases hnested fuel (by omega) with ⟨e', he', halike⟩
    rcases hothers fuel (by omega) with ⟨others, hothers', halikes⟩
    refine ⟨e' :: others, ?_, alikeAll_cons halike halikes⟩
    simp [elements, Cursor.isAt_eq hfirst, Cursor.isAt_eq hwrapped.1, Terminal.isMetBy, he',
      hothers', bind, Except.bind, pure, Except.pure]

/-- A call is read up to a lexeme that cannot begin an argument or continue the last
one. -/
theorem call_reads {callee : String} {args : List Expr}
    (hargs : ∀ e ∈ args, ReadsInside floatText e)
    (hspans : Spans (.name callee :: .symbol .colon :: argLexemes floatText args) c after)
    (hl : after.lexeme? = some l) (hclose : l = .symbol .closeParen ∨ l = .symbol .semicolon) :
    Reads (call · c) (16 * (argLexemes floatText args).length + 1)
      (fun result => result.1 = callee ∧ AlikeAll args result.2) after := by
  rcases hspans with ⟨hname, hcolon, hargsSpan⟩
  have hnameOk := Cursor.expectName_eq hname
  have hcolonOk := Cursor.expect_eq hcolon (t := .symbol .colon) rfl
  apply Reads.succ
  intro fuel hfuel
  cases args with
  | nil =>
    have hend : c.next.next = after := hargsSpan
    have hno : after.atExpr = false := by
      unfold Cursor.atExpr
      rw [hl]
      rcases hclose with rfl | rfl <;> rfl
    refine ⟨(callee, []), ?_, rfl, rfl⟩
    simp [call, hnameOk, hcolonOk, hend, hno, bind, Except.bind, pure, Except.pure]
  | cons e rest =>
    rcases (spans_append _ _).mp hargsSpan with ⟨between, hwrapped, hrest⟩
    have hyes : c.next.next.atExpr = true := by
      unfold Cursor.atExpr
      rw [hwrapped.1]
    have hother : tightness l = 0 ∧ l ≠ .keyword .if_ ∧ l ≠ .symbol .comma := by
      rcases hclose with rfl | rfl <;> decide
    rcases behind_item hrest hl hother.1 hother.2.1 with ⟨x, hx, htx, hifx⟩
    have hexpr := (hargs e List.mem_cons_self).expr hwrapped hx htx hifx
    have hothers := arguments_reads (fun e he => hargs e (List.mem_cons_of_mem _ he)) hrest hl
      hother.1 hother.2.1 hother.2.2
    simp only [argLexemes, wrap, List.length_cons, List.length_append] at hfuel
    rcases hexpr fuel (by omega) with ⟨e', he', halike⟩
    rcases hothers fuel (by omega) with ⟨others, hothers', halikes⟩
    refine ⟨(callee, e' :: others), ?_, rfl, alikeAll_cons halike halikes⟩
    simp [call, hnameOk, hcolonOk, hyes, he', hothers', bind, Except.bind, pure, Except.pure]

end Lists

/-! ## Each kind of expression -/

section Kinds

open ReadExpr

variable {floatText : Float → String} {c close : Cursor} {n : Nat} {good : Expr → Prop}

/-- What the tightest reader reads up to a parenthesis is an expression. -/
theorem expr_of_primary (h : Reads (primary · c) (n + 1) good close)
    (hstart : c.lexeme?.bind signOp? = none)
    (hclose : close.lexeme? = some (.symbol .closeParen)) : Reads (expr · c) (n + 15) good close :=
  expr_of_unary (unary_of_primary h hstart hclose (by decide)) hclose rfl (by decide)

theorem natOfDigits_toDigits (n : Nat) : Number.natOfDigits (Nat.toDigits 10 n) = n := by
  rw [Number.natOfDigits, ← Nat.ofDigitChars_eq_foldl]
  exact Nat.ofDigitChars_ten_toDigits

theorem natOfDigits_toString {value : Int} (h : 0 ≤ value) :
    (Number.natOfDigits (toString value).toList : Int) = value := by
  obtain ⟨n, rfl⟩ := Int.eq_ofNat_of_zero_le h
  have htext : (toString (n : Int)).toList = Nat.toDigits 10 n := by
    show (toString n).toList = _
    simp
  rw [htext, natOfDigits_toDigits]

-- The equations of these are derived here, once, and not by each proof below.
section

attribute [local simp] primary Expr.unplaced Expr.lexemes

end

/-- An expression of a single lexeme is read by the tightest reader. -/
theorem readsInside_leaf {e : Expr} {l : Lexeme} (hlexemes : e.lexemes floatText = [l])
    (hsign : signOp? l = none)
    (h : ∀ c fuel, c.lexeme? = some l → c.next.lexeme? = some (.symbol .closeParen) →
      ∃ e', primary (fuel + 1) c = .ok (e', c.next) ∧ Alike e e') : ReadsInside floatText e := by
  intro c close hspans hmode hclose
  rw [hlexemes] at hspans ⊢
  rcases hspans with ⟨hl, rfl⟩
  have hprimary : Reads (primary · c) 1 (Alike e) c.next := by
    apply Reads.succ
    intro fuel _
    exact h c fuel hl hclose
  exact (expr_of_primary hprimary (start_of_lexeme hl hsign) hclose).mono (by simp)

theorem readsInside_int {pos : Pos} {value : Int} (hnonneg : 0 ≤ value)
    (hdigits : (toString value).length ≤ digitLimit) :
    ReadsInside floatText (.int pos value) := by
  apply readsInside_leaf rfl rfl
  intro c fuel hl _
  refine ⟨.int c.pos (Number.natOfDigits (toString value).toList), ?_, ?_⟩
  · simpa [primary, hl, pure, Except.pure] using hdigits
  · simp only [Alike, Expr.unplaced, natOfDigits_toString hnonneg]

theorem readsInside_float {pos : Pos} {value : Float}
    (htext : floatOfNumeral (floatText value) = value) :
    ReadsInside floatText (.float pos value) := by
  apply readsInside_leaf rfl rfl
  intro c fuel hl _
  refine ⟨.float c.pos value, ?_, rfl⟩
  simp [primary, hl, htext, pure, Except.pure]

theorem readsInside_bool (pos : Pos) (value : Bool) :
    ReadsInside floatText (.bool pos value) := by
  apply readsInside_leaf rfl (by cases value <;> rfl)
  intro c fuel hl _
  refine ⟨.bool c.pos value, ?_, rfl⟩
  cases value <;> simp at hl <;> simp [primary, hl, pure, Except.pure]

theorem readsInside_string (pos : Pos) (value : String) :
    ReadsInside floatText (.string pos value) := by
  apply readsInside_leaf rfl rfl
  intro c fuel hl _
  refine ⟨.string c.pos value, ?_, rfl⟩
  simp [primary, hl, pure, Except.pure]

theorem readsInside_var (pos : Pos) (name : String) :
    ReadsInside floatText (.var pos name) := by
  apply readsInside_leaf rfl rfl
  intro c fuel hl hclose
  have hno : c.secondIs (.symbol .colon) = false := by
    rw [Cursor.secondIs_eq hclose]
    rfl
  refine ⟨.var c.pos name, ?_, rfl⟩
  simp [primary, hl, hno, pure, Except.pure]

theorem readsInside_call {pos : Pos} {callee : String} {args : List Expr}
    (hargs : ∀ e ∈ args, ReadsInside floatText e) :
    ReadsInside floatText (.call pos callee args) := by
  intro c close hspans hmode hclose
  have hyes : c.secondIs (.symbol .colon) = true := by
    rw [Cursor.secondIs_eq hspans.2.1]
    rfl
  have hcall := call_reads hargs hspans hclose (.inl rfl)
  have hprimary : Reads (primary · c) (16 * (argLexemes floatText args).length + 2)
      (Alike (.call pos callee args)) close := by
    apply Reads.succ
    intro fuel hfuel
    rcases hcall fuel hfuel with ⟨⟨callee', args'⟩, hread, rfl, halikes⟩
    refine ⟨.call c.pos callee' args', ?_, ?_⟩
    · simp [primary, hspans.1, hmode, hyes, hread, bind, Except.bind, pure, Except.pure]
    · simp only [Alike, Expr.unplaced]
      rw [halikes]
  apply (expr_of_primary hprimary (start_of_lexeme hspans.1 rfl) hclose).mono
  simp only [Expr.lexemes, List.length_cons]
  omega

/-- Behind the first element of an array stand the others, or a comma if there are
none. -/
theorem otherElements_reads {rest : List Expr} {between closing : Cursor}
    (hrest : ∀ e ∈ rest, ReadsInside floatText e)
    (hspans : Spans (if rest.isEmpty then [.symbol .comma] else moreLexemes floatText rest) between
      closing) (hbracket : closing.lexeme? = some (.symbol .closeBracket)) :
    between.lexeme? = some (.symbol .comma) ∧
      Reads (elements · true between) (16 * (moreLexemes floatText rest).length + 1) (AlikeAll rest)
        closing := by
  cases rest with
  | nil =>
    rcases hspans with ⟨hcomma, rfl⟩
    refine ⟨hcomma, ?_⟩
    apply Reads.succ
    intro fuel _
    refine ⟨[], ?_, rfl⟩
    simp [elements, Cursor.isAt_eq hcomma, Cursor.isAt_eq hbracket, Terminal.isMetBy, pure,
      Except.pure]
  | cons e others => exact ⟨hspans.1, elements_reads hrest hspans hbracket true⟩

theorem brackets_reads {pos : Pos} {elements : List Expr}
    (helements : ∀ e ∈ elements, ReadsInside floatText e)
    (hspans : Spans ((Expr.array pos elements).lexemes floatText) c close) :
    Reads (brackets · c) (16 * (elementLexemes floatText elements).length + 1)
      (Alike (.array pos elements)) close := by
  rcases hspans with ⟨hopen, hspans⟩
  rcases (spans_append _ _).mp hspans with ⟨closing, hinside, hbracket, rfl⟩
  have hopenOk := Cursor.expect_eq hopen (t := .symbol .openBracket) rfl
  have hcloseOk := Cursor.expect_eq hbracket (t := .symbol .closeBracket) rfl
  apply Reads.succ
  intro fuel hfuel
  cases elements with
  | nil =>
    have hend : c.next = closing := hinside
    refine ⟨.array c.pos [], ?_, rfl⟩
    simp [brackets, hopenOk, hend, Cursor.isAt_eq hbracket, Terminal.isMetBy, bind, Except.bind,
      pure, Except.pure]
  | cons e rest =>
    rcases (spans_append _ _).mp hinside with ⟨between, hwrapped, hothers⟩
    rcases otherElements_reads (fun e he => helements e (List.mem_cons_of_mem _ he)) hothers
      hbracket with ⟨hcomma, hreads⟩
    have hnested := (helements e List.mem_cons_self).nested hwrapped hcomma rfl (by decide)
    simp only [elementLexemes, wrap, List.length_cons, List.length_append] at hfuel
    have hlength : (moreLexemes floatText rest).length ≤
        (if rest.isEmpty then [.symbol .comma] else moreLexemes floatText rest).length := by
      cases rest <;> simp [moreLexemes]
    rcases hnested fuel (by omega) with ⟨e', he', halike⟩
    rcases hreads fuel (by omega) with ⟨others, hothers', halikes⟩
    refine ⟨.array c.pos (e' :: others), ?_, ?_⟩
    · simp [brackets, hopenOk, Cursor.isAt_eq hwrapped.1, Cursor.isAt_eq hcomma, Terminal.isMetBy,
        he', hothers', hcloseOk, bind, Except.bind, pure, Except.pure]
    · have hall := alikeAll_cons halike halikes
      simp only [Alike, Expr.unplaced]
      rw [hall]

theorem readsInside_array {pos : Pos} {elements : List Expr}
    (helements : ∀ e ∈ elements, ReadsInside floatText e) :
    ReadsInside floatText (.array pos elements) := by
  intro c close hspans hmode hclose
  have hbrackets := brackets_reads helements hspans
  have hprimary : Reads (primary · c) (16 * (elementLexemes floatText elements).length + 2)
      (Alike (.array pos elements)) close := by
    apply Reads.succ
    intro fuel hfuel
    rcases hbrackets fuel hfuel with ⟨e', he', halike⟩
    refine ⟨e', ?_, halike⟩
    simp [primary, hspans.1, he']
  apply (expr_of_primary hprimary (start_of_lexeme hspans.1 rfl) hclose).mono
  simp only [Expr.lexemes, List.length_cons, List.length_append, List.length_nil]
  omega

theorem readsInside_index {pos : Pos} {array index : Expr} (harray : ReadsInside floatText array)
    (hindex : ReadsInside floatText index) : ReadsInside floatText (.index pos array index) := by
  intro c close hspans hmode hclose
  rcases (spans_append _ _).mp hspans with ⟨opening, hwrapped, hopen, hinside⟩
  rcases (spans_append _ _).mp hinside with ⟨closing, hwrapped', hbracket, rfl⟩
  have hprimary := harray.primary hwrapped
  have hnested := hindex.nested hwrapped' hbracket rfl (by decide)
  have hexpect := Cursor.expect_eq hbracket (t := .symbol .closeBracket) rfl
  have hindexed : Reads (indexed · c)
      (16 * (array.lexemes floatText).length + 16 * (index.lexemes floatText).length + 20)
      (Alike (.index pos array index)) closing.next := by
    apply Reads.succ
    intro fuel hfuel
    obtain ⟨k, rfl⟩ := Nat.exists_eq_add_of_le' (show 2 ≤ fuel by omega)
    rcases hprimary (k + 2) (by omega) with ⟨a', ha', halike⟩
    rcases hnested (k + 1) (by omega) with ⟨i', hi', halike'⟩
    refine ⟨.index a'.pos a' i', ?_, ?_⟩
    · simp [indexed, ha', indexes, Cursor.isAt_eq hopen, Cursor.isAt_eq hclose, Terminal.isMetBy,
        hi', hexpect, bind, Except.bind, pure, Except.pure]
    · simp only [Alike, Expr.unplaced]
      rw [halike, halike']
  have hpower := power_of_indexed hindexed hclose (by decide)
  have hunary := unary_of_power hpower (wrapped_start hwrapped)
  apply (expr_of_unary hunary hclose rfl (by decide)).mono
  simp only [Expr.lexemes, wrap, List.length_cons, List.length_append, List.length_nil]
  omega

theorem signOp?_lexeme {op : Op} (h : op.isSign = true) : signOp? op.lexeme = some op := by
  cases op with
  | sub | not => rfl
  | _ => cases h

theorem readsInside_unary {pos : Pos} {op : Op} {operand : Expr} (hop : op.isSign = true)
    (hoperand : ReadsInside floatText operand) :
    ReadsInside floatText (.unary pos op operand) := by
  intro c close hspans hmode hclose
  rcases hspans with ⟨hsign, hwrapped⟩
  have hinner := hoperand.unary hwrapped hclose (by decide)
  have hstart : c.lexeme?.bind signOp? = some op := by
    rw [hsign]
    exact signOp?_lexeme hop
  have hunary : Reads (unary · c) (16 * (operand.lexemes floatText).length + 6)
      (Alike (.unary pos op operand)) close := by
    apply Reads.succ
    intro fuel hfuel
    rcases hinner fuel hfuel with ⟨e', he', halike⟩
    refine ⟨.unary c.pos op e', ?_, ?_⟩
    · simp [unary, hstart, he', bind, Except.bind, pure, Except.pure]
    · simp only [Alike, Expr.unplaced]
      rw [halike]
  apply (expr_of_unary hunary hclose rfl (by decide)).mono
  simp only [Expr.lexemes, wrap, List.length_cons, List.length_append, List.length_nil]
  omega

/-- An operator between two operands is that of powers or belongs to a level. -/
theorem Op.pow_or_level {op : Op} (h : op.isInner = true) :
    op = .pow ∨ ∃ k : Level, k.op? op.lexeme = some op ∧ tightness op.lexeme = k.rank := by
  cases op with
  | pow => exact .inl rfl
  | disj => exact .inr ⟨.disjunction, rfl, rfl⟩
  | conj => exact .inr ⟨.conjunction, rfl, rfl⟩
  | lt => exact .inr ⟨.comparison, rfl, rfl⟩
  | le => exact .inr ⟨.comparison, rfl, rfl⟩
  | eq => exact .inr ⟨.comparison, rfl, rfl⟩
  | ne => exact .inr ⟨.comparison, rfl, rfl⟩
  | ge => exact .inr ⟨.comparison, rfl, rfl⟩
  | gt => exact .inr ⟨.comparison, rfl, rfl⟩
  | add => exact .inr ⟨.sum, rfl, rfl⟩
  | sub => exact .inr ⟨.sum, rfl, rfl⟩
  | mul => exact .inr ⟨.product, rfl, rfl⟩
  | div => exact .inr ⟨.product, rfl, rfl⟩
  | mod => exact .inr ⟨.product, rfl, rfl⟩
  | not => cases h
  | other _ => cases h

theorem alike_binary {pos pos' : Pos} {op : Op} {left right left' right' : Expr}
    (hleft : Alike left left') (hright : Alike right right') :
    Alike (.binary pos op left right) (.binary pos' op left' right') := by
  simp only [Alike, Expr.unplaced]
  rw [hleft, hright]

theorem readsInside_power {pos : Pos} {left right : Expr} (hleft : ReadsInside floatText left)
    (hright : ReadsInside floatText right) :
    ReadsInside floatText (.binary pos .pow left right) := by
  intro c close hspans hmode hclose
  rcases (spans_append _ _).mp hspans with ⟨between, hwrapped, hop, hwrapped'⟩
  have hbase := indexed_of_primary (hleft.primary hwrapped) hop (by decide)
  have hexponent := hright.unary hwrapped' hclose (by decide)
  have hpower : Reads (power · c)
      (16 * (left.lexemes floatText).length + 16 * (right.lexemes floatText).length + 6)
      (Alike (.binary pos .pow left right)) close := by
    apply Reads.succ
    intro fuel hfuel
    rcases hbase fuel (by omega) with ⟨left', hleft', halike⟩
    rcases hexponent fuel (by omega) with ⟨right', hright', halike'⟩
    refine ⟨.binary left'.pos .pow left' right', ?_, alike_binary halike halike'⟩
    simp [power, hleft', Cursor.isAt_eq hop, Op.lexeme, Terminal.isMetBy, hright', bind,
      Except.bind, pure, Except.pure]
  have hunary := unary_of_power hpower (wrapped_start hwrapped)
  apply (expr_of_unary hunary hclose rfl (by decide)).mono
  simp only [Expr.lexemes, wrap, List.length_cons, List.length_append, List.length_nil]
  omega

theorem readsInside_level {pos : Pos} {op : Op} {left right : Expr} {k : Level}
    (hop : k.op? op.lexeme = some op) (ht : tightness op.lexeme = k.rank)
    (hleft : ReadsInside floatText left) (hright : ReadsInside floatText right) :
    ReadsInside floatText (.binary pos op left right) := by
  intro c close hspans hmode hclose
  rcases (spans_append _ _).mp hspans with ⟨between, hwrapped, hbetween, hwrapped'⟩
  have hfirst := hleft.operand hwrapped hbetween k (Nat.le_of_eq ht)
  have hsecond := hright.operand hwrapped' hclose k (Nat.zero_le _)
  have hyes : between.lexeme?.bind k.op? = some op := by
    rw [hbetween]
    exact hop
  have hne : tightness (.symbol .closeParen) ≠ k.rank := by cases k <;> decide
  have hlevel : Reads (level · k c)
      (16 * (left.lexemes floatText).length + 16 * (right.lexemes floatText).length + 16)
      (Alike (.binary pos op left right)) close := by
    apply Reads.succ
    intro fuel hfuel
    obtain ⟨m, rfl⟩ := Nat.exists_eq_add_of_le' (show 2 ≤ fuel by omega)
    rcases hfirst (m + 2) (by omega) with ⟨left', hleft', halike⟩
    rcases hsecond (m + 1) (by omega) with ⟨right', hright', halike'⟩
    refine ⟨.binary left'.pos op left' right', ?_, alike_binary halike halike'⟩
    have hrest : levelRest (m + 2) k left' between =
        .ok (.binary left'.pos op left' right', close) := by
      rw [levelRest]
      simp only [hyes, hright', bind, Except.bind]
      split
      · exact levelRest_stop hclose hne m _
      · rfl
    simp [level, hleft', hrest, bind, Except.bind]
  have hdisjunction := disjunction_of_level hlevel hclose rfl
  apply (expr_of_disjunction hdisjunction hclose (by decide)).mono
  simp only [Expr.lexemes, wrap, List.length_cons, List.length_append, List.length_nil]
  omega

theorem readsInside_conditional {pos : Pos} {consequent test alternate : Expr}
    (hconsequent : ReadsInside floatText consequent) (htest : ReadsInside floatText test)
    (halternate : ReadsInside floatText alternate) :
    ReadsInside floatText (.conditional pos consequent test alternate) := by
  intro c close hspans hmode hclose
  rcases (spans_append _ _).mp hspans with ⟨first, hwrapped, hif, hspans⟩
  rcases (spans_append _ _).mp hspans with ⟨second, hwrapped', hotherwise, hwrapped''⟩
  have hfirst := hconsequent.disjunction hwrapped hif rfl
  have hsecond := htest.disjunction hwrapped' hotherwise rfl
  have hthird := halternate.expr hwrapped'' hclose rfl (by decide)
  have hexpect := Cursor.expect_eq hotherwise (t := .keyword .otherwise) rfl
  intro fuel hfuel
  simp only [Expr.lexemes, wrap, List.length_cons, List.length_append, List.length_nil] at hfuel
  obtain ⟨m, rfl⟩ := Nat.exists_eq_add_of_le' (show 1 ≤ fuel by omega)
  rcases hfirst m (by omega) with ⟨consequent', hconsequent', halike⟩
  rcases hsecond m (by omega) with ⟨test', htest', halike'⟩
  rcases hthird m (by omega) with ⟨alternate', halternate', halike''⟩
  refine ⟨.conditional consequent'.pos consequent' test' alternate', ?_, ?_⟩
  · simp [expr, hconsequent', Cursor.isAt_eq hif, Terminal.isMetBy, htest', hexpect, halternate',
      bind, Except.bind, pure, Except.pure]
  · simp only [Alike, Expr.unplaced]
    rw [halike, halike', halike'']

mutual

/-- A printable expression is read back between parentheses. -/
theorem readsInside_of_printable : ∀ e : Expr, e.Printable floatText → ReadsInside floatText e
  | .int _ _, h => readsInside_int h.1 h.2
  | .float _ _, h => readsInside_float h
  | .bool pos value, _ => readsInside_bool pos value
  | .string pos value, _ => readsInside_string pos value
  | .var pos name, _ => readsInside_var pos name
  | .array _ elements, h => readsInside_array (readsInside_of_printableAll elements h)
  | .index _ array index, h =>
    readsInside_index (readsInside_of_printable array h.1) (readsInside_of_printable index h.2)
  | .call _ _ args, h => readsInside_call (readsInside_of_printableAll args h)
  | .unary _ _ operand, h => readsInside_unary h.1 (readsInside_of_printable operand h.2)
  | .binary _ op left right, h => by
    have hleft := readsInside_of_printable left h.2.1
    have hright := readsInside_of_printable right h.2.2
    rcases Op.pow_or_level h.1 with rfl | ⟨k, hop, ht⟩
    · exact readsInside_power hleft hright
    · exact readsInside_level hop ht hleft hright
  | .conditional _ consequent test alternate, h =>
    readsInside_conditional (readsInside_of_printable consequent h.1)
      (readsInside_of_printable test h.2.1) (readsInside_of_printable alternate h.2.2)

theorem readsInside_of_printableAll : ∀ es : List Expr, PrintableAll floatText es →
    ∀ e ∈ es, ReadsInside floatText e
  | [], _, _, he => absurd he List.not_mem_nil
  | e :: rest, h, e', he => by
    rcases List.mem_cons.mp he with hsame | he
    · rw [hsame]
      exact readsInside_of_printable e h.1
    · exact readsInside_of_printableAll rest h.2 e' he

end

end Kinds

end Squishc.Surface
