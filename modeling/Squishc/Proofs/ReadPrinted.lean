import Squishc.Proofs.ReadPrintedExpr

/-!
# Reading printed programs

Every reader of statements, put in front of the lexemes of a printed statement,
gives the statement back and stops behind these lexemes.  Bodies end at a `stop`,
and no printed statement begins with a word that ends a body.

Main results:

- Theorem `readsBody_of_printable`: a printable body is read back up to its `stop`.
- Theorem `readsStmt_of_printable`: a printable statement is read back.
- Theorem `stmts_reads`: printable statements are read back up to the end mark.
-/

namespace Squishc.Surface

/-! ## Expressions in statements -/

section Parts

variable {floatText : Float → String} {e : Expr} {c after : Cursor} {l : Lexeme}

theorem length_wrap (ls : List Lexeme) : (wrap ls).length = ls.length + 2 := by
  simp [wrap]

/-- The lexemes between two cursors leave enough fuel to read them. -/
theorem fuel_wrapped (hspans : Spans (wrap (e.lexemes floatText)) c after) :
    16 * (e.lexemes floatText).length + 16 ≤ c.fuelFor := by
  have hlength := hspans.length_le
  rw [length_wrap] at hlength
  unfold Cursor.fuelFor
  omega

theorem expr_read (h : e.Printable floatText)
    (hspans : Spans (wrap (e.lexemes floatText)) c after) (hl : after.lexeme? = some l)
    (ht : tightness l = 0) (hif : l ≠ .keyword .if_) :
    ∃ e', c.expr = .ok (e', after) ∧ Alike e e' :=
  (readsInside_of_printable e h).expr hspans hl ht hif c.fuelFor (fuel_wrapped hspans)

theorem headerExpr_read (h : e.Printable floatText)
    (hspans : Spans (wrap (e.lexemes floatText)) c after) (hl : after.lexeme? = some l)
    (ht : tightness l = 0) (hif : l ≠ .keyword .if_) :
    ∃ e', c.headerExpr = .ok (e', after) ∧ Alike e e' := by
  rcases expr_read h (hspans.withHeader true) hl ht hif with ⟨e', he', halike⟩
  refine ⟨e', ?_, halike⟩
  simp [Cursor.headerExpr, he', bind, Except.bind, pure, Except.pure,
    hspans.withHeader_back]

theorem indexed_read (h : e.Printable floatText)
    (hspans : Spans (wrap (e.lexemes floatText)) c after) (hl : after.lexeme? = some l)
    (ht : tightness l = 0) : ∃ e', c.indexed = .ok (e', after) ∧ Alike e e' := by
  have hprimary := (readsInside_of_printable e h).primary hspans
  have hindexed := indexed_of_primary hprimary hl (by omega)
  have hfuel := fuel_wrapped hspans
  exact hindexed c.fuelFor (by omega)

theorem binding_read {b : Binding} (h : b.value.Printable floatText) (start : Pos)
    (hspans : Spans (.symbol .assign :: (wrap (b.value.lexemes floatText) ++ [.symbol .semicolon]))
      c after) :
    ∃ b', c.bindingRest start b.name = .ok (b', after) ∧ b'.unplaced = b.unplaced := by
  rcases hspans with ⟨hassign, hspans⟩
  rcases (spans_append _ _).mp hspans with ⟨between, hwrapped, hsemicolon, rfl⟩
  rcases expr_read h hwrapped hsemicolon rfl (by decide) with ⟨e', he', halike⟩
  have hassignOk := Cursor.expect_eq hassign (t := .symbol .assign) rfl
  have hsemicolonOk := Cursor.expect_eq hsemicolon (t := .symbol .semicolon) rfl
  refine ⟨⟨start, b.name, e'⟩, ?_, ?_⟩
  · simp [Cursor.bindingRest, hassignOk, he', hsemicolonOk, bind, Except.bind, pure, Except.pure]
  · simp only [Binding.unplaced]
    rw [halike]

theorem assignment_read {b : Binding} (h : b.value.Printable floatText)
    (hspans : Spans (b.lexemes floatText) c after) :
    ∃ b', c.assignment = .ok (b', after) ∧ b'.unplaced = b.unplaced := by
  rcases binding_read h c.pos hspans.2 with ⟨b', hb', hsame⟩
  refine ⟨b', ?_, hsame⟩
  simp [Cursor.assignment, Cursor.expectName_eq hspans.1, hb', bind, Except.bind]

theorem declaration_read {b : Binding} (h : b.value.Printable floatText)
    (hspans : Spans (.keyword .pencil :: b.lexemes floatText) c after) :
    ∃ b', c.declaration = .ok (b', after) ∧ b'.unplaced = b.unplaced := by
  rcases hspans with ⟨hpencil, hname, hspans⟩
  rcases binding_read h c.pos hspans with ⟨b', hb', hsame⟩
  have hpencilOk := Cursor.expect_eq hpencil (t := .keyword .pencil) rfl
  refine ⟨b', ?_, hsame⟩
  simp [Cursor.declaration, hpencilOk, Cursor.expectName_eq hname, hb', bind, Except.bind]

/-! ## Parameters -/

theorem moreParams_reads {ps : List Param} (hspans : Spans (moreParamLexemes ps) c after)
    (hcolon : after.lexeme? = some (.symbol .colon)) :
    Reads (ReadStmt.moreParams · c) (ps.length + 1)
      (fun ps' => ps'.map Param.unplaced = ps.map Param.unplaced) after := by
  induction ps generalizing c with
  | nil =>
    cases hspans
    apply Reads.succ
    intro fuel _
    refine ⟨[], ?_, rfl⟩
    simp [ReadStmt.moreParams, Cursor.isAt_eq hcolon, Terminal.isMetBy, pure, Except.pure]
  | cons p rest ih =>
    rcases hspans with ⟨hcomma, hname, hrest⟩
    apply Reads.succ
    intro fuel hfuel
    rcases ih hrest fuel hfuel with ⟨others, hothers, hsame⟩
    refine ⟨⟨c.next.pos, p.name⟩ :: others, ?_, ?_⟩
    · simp [ReadStmt.moreParams, Cursor.isAt_eq hcomma, Terminal.isMetBy, Cursor.param,
        Cursor.expectName_eq hname, hothers, bind, Except.bind, pure, Except.pure]
    · simpa [Param.unplaced] using hsame

theorem length_moreParamLexemes (ps : List Param) : ps.length ≤ (moreParamLexemes ps).length := by
  induction ps with
  | nil => exact Nat.le_refl _
  | cons p rest ih =>
    simp only [moreParamLexemes, List.length_cons]
    omega

theorem params_read {ps : List Param} (hspans : Spans (paramLexemes ps) c after)
    (hcolon : after.lexeme? = some (.symbol .colon)) :
    ∃ ps', ReadStmt.params c = .ok (ps', after) ∧
      ps'.map Param.unplaced = ps.map Param.unplaced := by
  cases ps with
  | nil =>
    cases hspans
    refine ⟨[], ?_, rfl⟩
    simp [ReadStmt.params, Cursor.atName, hcolon, pure, Except.pure]
  | cons p rest =>
    rcases hspans with ⟨hname, hrest⟩
    have hlength := hrest.length_le
    have hparams := length_moreParamLexemes rest
    have hfuel : rest.length + 1 ≤ c.next.fuelFor := by
      unfold Cursor.fuelFor
      omega
    rcases moreParams_reads hrest hcolon c.next.fuelFor hfuel with ⟨others, hothers, hsame⟩
    refine ⟨⟨c.pos, p.name⟩ :: others, ?_, ?_⟩
    · simp [ReadStmt.params, Cursor.atName, hname, Cursor.param, Cursor.expectName_eq hname,
        hothers, bind, Except.bind, pure, Except.pure]
    · simpa [Param.unplaced] using hsame

end Parts

/-! ## Statements -/

/-- The lexemes of a statement are read as the statement, unless an `else` follows. -/
def ReadsStmt (floatText : Float → String) (s : Stmt) : Prop :=
  ∀ c after l, Spans (s.lexemes floatText) c after → after.lexeme? = some l → l ≠ .keyword .else_ →
    Reads (ReadStmt.stmt · c) (4 * (s.lexemes floatText).length)
      (fun s' => s'.unplaced = s.unplaced) after

/-- The lexemes of a body are read as the body, up to a `stop`. -/
def ReadsBody (floatText : Float → String) (body : List Stmt) : Prop :=
  ∀ terminals c after, .keyword .stop ∈ terminals →
    (∀ t ∈ terminals, t = .keyword .stop ∨ t = .keyword .else_) →
    Spans (stmtLexemes floatText body) c after → after.lexeme? = some (.keyword .stop) →
      Reads (ReadStmt.stmtsUntil · terminals c) (4 * (stmtLexemes floatText body).length + 1)
        (fun body' => allUnplaced body' = allUnplaced body) after

section Statements

open ReadStmt

variable {floatText : Float → String} {c after : Cursor} {l : Lexeme} {body : List Stmt}

/-- A lexeme that can begin the given statement: it ends no body, and it is `if` only
for a branch. -/
structure Opens (s : Stmt) (l : Lexeme) : Prop where
  notStop : l ≠ .keyword .stop
  notElse : l ≠ .keyword .else_
  notEnd : l ≠ .eof
  branch : l = .keyword .if_ → startsWithBranch [s] = true

theorem opening {s : Stmt} (h : s.Printable floatText) :
    ∃ l rest, s.lexemes floatText = l :: rest ∧ Opens s l := by
  cases s with
  | stray => cases h
  | branch => exact ⟨_, _, rfl, by simp, by simp, by simp, fun _ => rfl⟩
  | ret _ value => cases value <;> exact ⟨_, _, rfl, by simp, by simp, by simp, by simp⟩
  | _ => exact ⟨_, _, rfl, by simp, by simp, by simp, by simp⟩

theorem opening_spans {s : Stmt} (h : s.Printable floatText)
    (hspans : Spans (s.lexemes floatText) c after) : ∃ l, c.lexeme? = some l ∧ Opens s l := by
  rcases opening h with ⟨l, rest, hlexemes, hopens⟩
  rw [hlexemes] at hspans
  exact ⟨l, hspans.1, hopens⟩

theorem not_atEnd (hl : c.lexeme? = some l) (hend : l ≠ .eof) : c.atEnd = false := by
  rcases Option.map_eq_some_iff.mp hl with ⟨tok, htok, rfl⟩
  simpa [Cursor.atEnd, htok] using hend

/-- No statement stands before an `else`. -/
theorem behind_stmt {rest : List Stmt} (h : AllPrintable floatText rest)
    (hspans : Spans (stmtLexemes floatText rest) c after) (hl : after.lexeme? = some l)
    (helse : l ≠ .keyword .else_) : ∃ x, c.lexeme? = some x ∧ x ≠ .keyword .else_ := by
  cases rest with
  | nil =>
    rw [show c = after from hspans]
    exact ⟨l, hl, helse⟩
  | cons s rest =>
    rcases (spans_append _ _).mp hspans with ⟨between, hfirst, -⟩
    rcases opening_spans h.1 hfirst with ⟨x, hx, hopens⟩
    exact ⟨x, hx, hopens.notElse⟩

theorem length_lexemes_pos {s : Stmt} (h : s.Printable floatText) :
    0 < (s.lexemes floatText).length := by
  rcases opening h with ⟨l, rest, hlexemes, -⟩
  rw [hlexemes]
  exact Nat.succ_pos _

theorem readsBody_nil : ReadsBody floatText [] := by
  intro terminals c after hstop _ hspans hl
  cases hspans
  have hany : terminals.any c.isAt = true := by
    rw [List.any_eq_true]
    exact ⟨.keyword .stop, hstop, by rw [Cursor.isAt_eq hl]; rfl⟩
  apply Reads.succ
  intro fuel _
  exact ⟨[], by simp [stmtsUntil, hany, pure, Except.pure], rfl⟩

theorem readsBody_cons {s : Stmt} {rest : List Stmt}
    (hprintable : AllPrintable floatText (s :: rest)) (hs : ReadsStmt floatText s)
    (hrest : ReadsBody floatText rest) : ReadsBody floatText (s :: rest) := by
  intro terminals c after hstop hterminals hspans hl
  rcases (spans_append _ _).mp hspans with ⟨between, hfirst, hothers⟩
  rcases opening_spans hprintable.1 hfirst with ⟨first, hat, hopens⟩
  rcases behind_stmt hprintable.2 hothers hl (by decide) with ⟨x, hx, helse⟩
  have hreads := hs c between x hfirst hx helse
  have hreads' := hrest terminals between after hstop hterminals hothers hl
  have hany : terminals.any c.isAt = false := by
    rw [List.any_eq_false]
    intro t ht
    rw [Cursor.isAt_eq hat]
    rcases hterminals t ht with rfl | rfl
    · simpa [Terminal.isMetBy] using hopens.notStop
    · simpa [Terminal.isMetBy] using hopens.notElse
  have hend := not_atEnd hat hopens.notEnd
  have hpos := length_lexemes_pos hprintable.1
  apply Reads.succ
  intro fuel hfuel
  simp only [stmtLexemes, List.length_append] at hfuel
  rcases hreads fuel (by omega) with ⟨s', hs', hsame⟩
  rcases hreads' fuel (by omega) with ⟨others, hothers', hsame'⟩
  refine ⟨s' :: others, ?_, ?_⟩
  · simp [stmtsUntil, hany, hend, hs', hothers', bind, Except.bind, pure, Except.pure]
  · simp only [allUnplaced]
    rw [hsame, hsame']

theorem block_reads (hbody : ReadsBody floatText body)
    (hspans : Spans (stmtLexemes floatText body ++ [.keyword .stop]) c after) :
    Reads (block · c) (4 * (stmtLexemes floatText body).length + 2)
      (fun body' => allUnplaced body' = allUnplaced body) after := by
  rcases (spans_append _ _).mp hspans with ⟨closing, hinside, hstop, rfl⟩
  have hreads := hbody [.keyword .stop] c closing (by simp) (by simp) hinside hstop
  have hstopOk := Cursor.expect_eq hstop (t := .keyword .stop) rfl
  apply Reads.succ
  intro fuel hfuel
  rcases hreads fuel hfuel with ⟨body', hbody', hsame⟩
  refine ⟨body', ?_, hsame⟩
  simp [block, hbody', hstopOk, bind, Except.bind, pure, Except.pure]

/-! ## Branches -/

/-- Reads what follows the body of a branch. -/
def branchRest (fuel : Nat) (c : Cursor) : Reading (Else × Cursor) := do
  let c := if c.isAt (.keyword .stop) && c.secondIs (.keyword .else_) then c.next else c
  if c.isAt (.keyword .else_) then
    let c := c.next
    if c.isAt (.keyword .if_) then
      let ((test, body, rest), after) ← branch fuel c
      return (.branch c.pos test body rest, after)
    else
      let (closing, c) ← block fuel c
      return (.body closing, c)
  else
    let c ← c.expect (.keyword .stop)
    return (.absent, c)

theorem branch_succ (fuel : Nat) (c : Cursor) : branch (fuel + 1) c = (do
    let c ← c.expect (.keyword .if_)
    let (test, c) ← c.headerExpr
    let c ← c.expect (.symbol .colon)
    let (body, c) ← stmtsUntil fuel [.keyword .stop, .keyword .else_] c
    let (rest, c) ← branchRest fuel c
    return ((test, body, rest), c)) := by
  rw [branch]
  refine bind_congr fun c => bind_congr fun header => bind_congr fun c =>
    bind_congr fun bodied => ?_
  unfold branchRest
  dsimp only
  generalize (if bodied.2.isAt (.keyword .stop) && bodied.2.secondIs (.keyword .else_) then
    bodied.2.next else bodied.2) = d
  by_cases helse : d.isAt (.keyword .else_) = true
  · by_cases hif : d.next.isAt (.keyword .if_) = true
    · simp [helse, hif]
    · simp [helse, hif]
  · simp [helse]

/-- The lexemes behind the body of a branch are read as the rest of the branch, unless
an `else` follows. -/
def ReadsRest (floatText : Float → String) (rest : Else) : Prop :=
  ∀ c after l, Spans (rest.lexemes floatText) c after → after.lexeme? = some l →
    l ≠ .keyword .else_ →
      Reads (branchRest · c) (4 * (rest.lexemes floatText).length)
        (fun rest' => rest'.unplaced = rest.unplaced) after

/-- The lexemes of a branch, from its test on. -/
def branchLexemes (floatText : Float → String) (test : Expr) (body : List Stmt) (rest : Else) :
    List Lexeme :=
  .keyword .if_ :: (wrap (test.lexemes floatText) ++
    .symbol .colon :: (stmtLexemes floatText body ++ rest.lexemes floatText))

theorem rest_stop {rest : Else} (h : rest.Printable floatText)
    (hspans : Spans (rest.lexemes floatText) c after) : c.lexeme? = some (.keyword .stop) := by
  cases rest with
  | stray => cases h
  | _ => exact hspans.1

theorem branch_reads {test : Expr} {rest : Else} (htest : test.Printable floatText)
    (hprintable : rest.Printable floatText) (hbody : ReadsBody floatText body)
    (hrest : ReadsRest floatText rest)
    (hspans : Spans (branchLexemes floatText test body rest) c after)
    (hl : after.lexeme? = some l) (helse : l ≠ .keyword .else_) :
    Reads (branch · c) (4 * (branchLexemes floatText test body rest).length - 1)
      (fun result => result.1.unplaced = test.unplaced ∧
        allUnplaced result.2.1 = allUnplaced body ∧ result.2.2.unplaced = rest.unplaced) after := by
  rcases hspans with ⟨hif, hspans⟩
  rcases (spans_append _ _).mp hspans with ⟨colon, hwrapped, hcolon, hspans⟩
  rcases (spans_append _ _).mp hspans with ⟨closing, hinside, hclosing⟩
  rcases headerExpr_read htest hwrapped hcolon rfl (by decide) with ⟨test', htest', halike⟩
  have hifOk := Cursor.expect_eq hif (t := .keyword .if_) rfl
  have hcolonOk := Cursor.expect_eq hcolon (t := .symbol .colon) rfl
  have hreads := hbody [.keyword .stop, .keyword .else_] colon.next closing (by simp) (by simp)
    hinside (rest_stop hprintable hclosing)
  have hreads' := hrest closing after l hclosing hl helse
  intro fuel hfuel
  simp only [branchLexemes, length_wrap, List.length_cons, List.length_append] at hfuel
  obtain ⟨k, rfl⟩ := Nat.exists_eq_add_of_le' (show 1 ≤ fuel by omega)
  rcases hreads k (by omega) with ⟨body', hbody', hsame⟩
  rcases hreads' k (by omega) with ⟨rest', hrest', hsame'⟩
  refine ⟨(test', body', rest'), ?_, halike, hsame, hsame'⟩
  simp only [branch_succ]
  simp [hifOk, htest', hcolonOk, hbody', hrest', bind, Except.bind, pure, Except.pure]

theorem readsRest_absent : ReadsRest floatText .absent := by
  intro c after l hspans hl helse
  rcases hspans with ⟨hstop, rfl⟩
  have hno : c.secondIs (.keyword .else_) = false := by
    rw [Cursor.secondIs_eq hl]
    simpa [Terminal.isMetBy] using helse
  have hstopOk := Cursor.expect_eq hstop (t := .keyword .stop) rfl
  intro fuel _
  refine ⟨.absent, ?_, rfl⟩
  simp [branchRest, hno, Cursor.isAt_eq hstop, Terminal.isMetBy, hstopOk, bind, Except.bind, pure,
    Except.pure]

/-- A body that does not begin with a branch does not begin with `if`. -/
theorem not_isAt_if (hprintable : AllPrintable floatText body)
    (hfirst : startsWithBranch body = false)
    (hspans : Spans (stmtLexemes floatText body ++ [.keyword .stop]) c after) :
    c.isAt (.keyword .if_) = false := by
  cases body with
  | nil =>
    rw [Cursor.isAt_eq hspans.1]
    rfl
  | cons s rest =>
    rw [stmtLexemes, List.append_assoc] at hspans
    rcases (spans_append _ _).mp hspans with ⟨between, hs, -⟩
    rcases opening_spans hprintable.1 hs with ⟨l, hl, hopens⟩
    have hnotIf : l ≠ .keyword .if_ := by
      intro hif
      have hbranch := hopens.branch hif
      cases s <;> simp_all [startsWithBranch]
    rw [Cursor.isAt_eq hl]
    simpa [Terminal.isMetBy] using hnotIf

theorem readsRest_body (hprintable : AllPrintable floatText body)
    (hfirst : startsWithBranch body = false) (hbody : ReadsBody floatText body) :
    ReadsRest floatText (.body body) := by
  intro c after l hspans hl _
  rcases hspans with ⟨hstop, helse, hspans⟩
  have hblock := block_reads hbody hspans
  have hnotIf := not_isAt_if hprintable hfirst hspans
  intro fuel hfuel
  simp only [Else.lexemes, List.length_cons, List.length_append, List.length_nil] at hfuel
  rcases hblock fuel (by omega) with ⟨body', hbody', hsame⟩
  refine ⟨.body body', ?_, ?_⟩
  · simp [branchRest, Cursor.isAt_eq hstop, Cursor.secondIs_eq helse, Cursor.isAt_eq helse,
      Terminal.isMetBy, hnotIf, hbody', bind, Except.bind, pure, Except.pure]
  · simp only [Else.unplaced]
    rw [hsame]

theorem readsRest_branch {pos : Pos} {test : Expr} {rest : Else} (htest : test.Printable floatText)
    (hprintable : rest.Printable floatText) (hbody : ReadsBody floatText body)
    (hrest : ReadsRest floatText rest) : ReadsRest floatText (.branch pos test body rest) := by
  intro c after l hspans hl hnotElse
  rcases hspans with ⟨hstop, helse, hspans⟩
  have hbranch := branch_reads htest hprintable hbody hrest hspans hl hnotElse
  intro fuel hfuel
  have hfuel' : 4 * (branchLexemes floatText test body rest).length - 1 ≤ fuel := by
    simp only [Else.lexemes, branchLexemes, List.length_cons] at hfuel ⊢
    omega
  rcases hbranch fuel hfuel' with ⟨⟨test', body', rest'⟩, hread, halike, hsame, hsame'⟩
  refine ⟨.branch c.next.next.pos test' body' rest', ?_, ?_⟩
  · simp [branchRest, Cursor.isAt_eq hstop, Cursor.secondIs_eq helse, Cursor.isAt_eq helse,
      Cursor.isAt_eq hspans.1, Terminal.isMetBy, hread, bind, Except.bind, pure, Except.pure]
  · simp only [Else.unplaced]
    rw [halike, hsame, hsame']

-- The equations of these are derived here, once, and not by each proof below.
section

attribute [local simp] stmt Stmt.unplaced Stmt.lexemes

end

/-! ## Each kind of statement -/

/-- A statement without a body is read in one step. -/
theorem readsStmt_simple {s : Stmt} (hprintable : s.Printable floatText)
    (h : ∀ c after fuel, Spans (s.lexemes floatText) c after →
      ∃ s', stmt (fuel + 1) c = .ok (s', after) ∧ s'.unplaced = s.unplaced) :
    ReadsStmt floatText s := by
  intro c after l hspans _ _ fuel hfuel
  have hpos := length_lexemes_pos hprintable
  obtain ⟨k, rfl⟩ := Nat.exists_eq_add_of_le' (show 1 ≤ fuel by omega)
  exact h c after k hspans

theorem readsStmt_print {pos : Pos} {value : Expr} (h : value.Printable floatText) :
    ReadsStmt floatText (.print pos value) := by
  apply readsStmt_simple (s := .print pos value) h
  intro c after fuel hspans
  rcases hspans with ⟨hspeak, hspans⟩
  rcases (spans_append _ _).mp hspans with ⟨between, hwrapped, hsemicolon, rfl⟩
  rcases expr_read h hwrapped hsemicolon rfl (by decide) with ⟨e', he', halike⟩
  have hspeakOk := Cursor.expect_eq hspeak (t := .keyword .speak) rfl
  have hsemicolonOk := Cursor.expect_eq hsemicolon (t := .symbol .semicolon) rfl
  refine ⟨.print c.pos e', ?_, ?_⟩
  · simp [stmt, Cursor.isAt_eq hspeak, Terminal.isMetBy, Cursor.print, hspeakOk, he', hsemicolonOk,
      bind, Except.bind, pure, Except.pure]
  · simp only [Stmt.unplaced]
    rw [halike]

theorem readsStmt_declare {b : Binding} (h : b.value.Printable floatText) :
    ReadsStmt floatText (.declare b) := by
  apply readsStmt_simple (s := .declare b) h
  intro c after fuel hspans
  rcases declaration_read h hspans with ⟨b', hb', hsame⟩
  refine ⟨.declare b', ?_, ?_⟩
  · simp [stmt, Cursor.isAt_eq hspans.1, Terminal.isMetBy, hb', bind, Except.bind, pure,
      Except.pure]
  · simp only [Stmt.unplaced]
    rw [hsame]

theorem readsStmt_assign {b : Binding} (h : b.value.Printable floatText) :
    ReadsStmt floatText (.assign b) := by
  apply readsStmt_simple (s := .assign b) h
  intro c after fuel hspans
  rcases assignment_read h hspans with ⟨b', hb', hsame⟩
  refine ⟨.assign b', ?_, ?_⟩
  · simp [stmt, Cursor.isAt_eq hspans.1, Cursor.secondIs_eq hspans.2.1, Terminal.isMetBy,
      Cursor.atName, hspans.1, hb', bind, Except.bind, pure, Except.pure]
  · simp only [Stmt.unplaced]
    rw [hsame]

theorem readsStmt_exit (pos : Pos) : ReadsStmt floatText (.exit pos) := by
  apply readsStmt_simple (s := .exit pos) trivial
  intro c after fuel hspans
  rcases hspans with ⟨hbreak, hsemicolon, rfl⟩
  have hbreakOk := Cursor.expect_eq hbreak (t := .keyword .break_) rfl
  have hsemicolonOk := Cursor.expect_eq hsemicolon (t := .symbol .semicolon) rfl
  refine ⟨.exit c.pos, ?_, rfl⟩
  simp [stmt, Cursor.isAt_eq hbreak, Terminal.isMetBy, Cursor.exit, hbreakOk, hsemicolonOk, bind,
    Except.bind, pure, Except.pure]

theorem readsStmt_ret {pos : Pos} {value : Option Expr}
    (h : (Stmt.ret pos value).Printable floatText) : ReadsStmt floatText (.ret pos value) := by
  apply readsStmt_simple h
  intro c after fuel hspans
  cases value with
  | none =>
    rcases hspans with ⟨hreturn, hsemicolon, rfl⟩
    have hreturnOk := Cursor.expect_eq hreturn (t := .keyword .return_) rfl
    refine ⟨.ret c.pos none, ?_, rfl⟩
    simp [stmt, Cursor.isAt_eq hreturn, Terminal.isMetBy, Cursor.ret, hreturnOk,
      Cursor.isAt_eq hsemicolon, bind, Except.bind, pure, Except.pure]
  | some value =>
    rcases hspans with ⟨hreturn, hspans⟩
    rcases (spans_append _ _).mp hspans with ⟨between, hwrapped, hsemicolon, rfl⟩
    rcases expr_read h hwrapped hsemicolon rfl (by decide) with ⟨e', he', halike⟩
    have hreturnOk := Cursor.expect_eq hreturn (t := .keyword .return_) rfl
    have hsemicolonOk := Cursor.expect_eq hsemicolon (t := .symbol .semicolon) rfl
    refine ⟨.ret c.pos (some e'), ?_, ?_⟩
    · simp [stmt, Cursor.isAt_eq hreturn, Terminal.isMetBy, Cursor.ret, hreturnOk,
        Cursor.isAt_eq hwrapped.1, he', hsemicolonOk, bind, Except.bind, pure, Except.pure]
    · simp only [Stmt.unplaced, Option.map_some]
      rw [halike]

theorem readsStmt_call {pos : Pos} {callee : String} {args : List Expr}
    (h : PrintableAll floatText args) : ReadsStmt floatText (.call pos callee args) := by
  apply readsStmt_simple (s := .call pos callee args) h
  intro c after fuel hspans
  have hcolon := hspans.2.1
  have hname := hspans.1
  have hcall : Spans ((.name callee :: .symbol .colon :: argLexemes floatText args) ++
      [.symbol .semicolon]) c after := hspans
  rcases (spans_append _ _).mp hcall with ⟨between, hargs, hsemicolon, rfl⟩
  have hreads := call_reads (readsInside_of_printableAll args h) hargs hsemicolon (.inr rfl)
  have hlength := hargs.length_le
  have hfuel : 16 * (argLexemes floatText args).length + 1 ≤ c.fuelFor := by
    simp only [List.length_cons] at hlength
    unfold Cursor.fuelFor
    omega
  rcases hreads c.fuelFor hfuel with ⟨⟨callee', args'⟩, hread, rfl, halikes⟩
  have hsemicolonOk := Cursor.expect_eq hsemicolon (t := .symbol .semicolon) rfl
  refine ⟨.call c.pos callee' args', ?_, ?_⟩
  · simp [stmt, Cursor.isAt_eq hname, Cursor.secondIs_eq hcolon, Terminal.isMetBy, Cursor.atName,
      hname, Cursor.callStmt, Cursor.call, hread, hsemicolonOk, bind, Except.bind, pure,
      Except.pure]
  · simp only [Stmt.unplaced]
    rw [halikes]

theorem readsStmt_branch {pos : Pos} {test : Expr} {rest : Else} (htest : test.Printable floatText)
    (hprintable : rest.Printable floatText) (hbody : ReadsBody floatText body)
    (hrest : ReadsRest floatText rest) : ReadsStmt floatText (.branch pos test body rest) := by
  intro c after l hspans hl helse
  have hbranch := branch_reads htest hprintable hbody hrest hspans hl helse
  intro fuel hfuel
  have hfuel' : 4 * (branchLexemes floatText test body rest).length ≤ fuel := hfuel
  obtain ⟨k, rfl⟩ : ∃ k, fuel = k + 1 := by
    simp only [branchLexemes, List.length_cons] at hfuel'
    exact ⟨fuel - 1, by omega⟩
  rcases hbranch k (by omega) with ⟨⟨test', body', rest'⟩, hread, halike, hsame, hsame'⟩
  refine ⟨.branch c.pos test' body' rest', ?_, ?_⟩
  · simp [stmt, Cursor.isAt_eq hspans.1, Terminal.isMetBy, hread, bind, Except.bind, pure,
      Except.pure]
  · simp only [Stmt.unplaced]
    rw [halike, hsame, hsame']

theorem readsStmt_whileLoop {pos : Pos} {test : Expr} (htest : test.Printable floatText)
    (hbody : ReadsBody floatText body) : ReadsStmt floatText (.whileLoop pos test body) := by
  intro c after l hspans _ _ fuel hfuel
  rcases hspans with ⟨hwhile, hspans⟩
  rcases (spans_append _ _).mp hspans with ⟨colon, hwrapped, hcolon, hspans⟩
  rcases headerExpr_read htest hwrapped hcolon rfl (by decide) with ⟨test', htest', halike⟩
  have hblock := block_reads hbody hspans
  have hwhileOk := Cursor.expect_eq hwhile (t := .keyword .while_) rfl
  have hcolonOk := Cursor.expect_eq hcolon (t := .symbol .colon) rfl
  simp only [Stmt.lexemes, length_wrap, List.length_cons, List.length_append] at hfuel
  obtain ⟨k, rfl⟩ := Nat.exists_eq_add_of_le' (show 2 ≤ fuel by omega)
  rcases hblock k (by omega) with ⟨body', hbody', hsame⟩
  refine ⟨.whileLoop c.pos test' body', ?_, ?_⟩
  · simp [stmt, Cursor.isAt_eq hwhile, Terminal.isMetBy, whileLoop, hwhileOk, htest', hcolonOk,
      hbody', bind, Except.bind, pure, Except.pure]
  · simp only [Stmt.unplaced]
    rw [halike, hsame]

theorem readsStmt_forLoop {pos : Pos} {init update : Binding} {test : Expr}
    (hinit : init.value.Printable floatText) (htest : test.Printable floatText)
    (hupdate : update.value.Printable floatText) (hbody : ReadsBody floatText body) :
    ReadsStmt floatText (.forLoop pos init test update body) := by
  intro c after l hspans _ _ fuel hfuel
  rcases hspans with ⟨hfor, hspans⟩
  rcases (spans_append (.keyword .pencil :: init.lexemes floatText) _).mp hspans with
    ⟨first, hdeclaration, hstop, hspans⟩
  rcases (spans_append _ _).mp hspans with ⟨second, hwrapped, hfastfwd, hspans⟩
  rcases (spans_append _ _).mp hspans with ⟨third, hassignment, hspans⟩
  rcases declaration_read hinit hdeclaration with ⟨init', hinit', hsameInit⟩
  rcases headerExpr_read htest hwrapped hfastfwd rfl (by decide) with ⟨test', htest', halike⟩
  rcases assignment_read hupdate hassignment with ⟨update', hupdate', hsameUpdate⟩
  have hblock := block_reads hbody hspans
  have hforOk := Cursor.expect_eq hfor (t := .keyword .for_) rfl
  have hstopOk := Cursor.expect_eq hstop (t := .keyword .stop) rfl
  have hfastfwdOk := Cursor.expect_eq hfastfwd (t := .keyword .fastfwd) rfl
  simp only [Stmt.lexemes, length_wrap, List.length_cons, List.length_append] at hfuel
  obtain ⟨k, rfl⟩ := Nat.exists_eq_add_of_le' (show 2 ≤ fuel by omega)
  rcases hblock k (by omega) with ⟨body', hbody', hsame⟩
  refine ⟨.forLoop c.pos init' test' update' body', ?_, ?_⟩
  · simp [stmt, Cursor.isAt_eq hfor, Terminal.isMetBy, forLoop, hforOk, hinit', hstopOk, htest',
      hfastfwdOk, hupdate', hbody', bind, Except.bind, pure, Except.pure]
  · simp only [Stmt.unplaced]
    rw [hsameInit, halike, hsameUpdate, hsame]

theorem readsStmt_forEach {pos : Pos} {collection : Expr} {name : String}
    (hcollection : collection.Printable floatText) (hbody : ReadsBody floatText body) :
    ReadsStmt floatText (.forEach pos collection name body) := by
  intro c after l hspans _ _ fuel hfuel
  rcases (spans_append _ _).mp hspans with ⟨dot, hwrapped, hdot, hloop, hname, hcolon, hspans⟩
  rcases indexed_read hcollection (hwrapped.withHeader true) hdot rfl with
    ⟨collection', hread, halike⟩
  have hblock := block_reads hbody hspans
  have hback := hwrapped.withHeader_back true
  have hdotOk := Cursor.expect_eq hdot (t := .symbol .dot) rfl
  have hloopOk := Cursor.expect_eq hloop (t := .keyword .loop) rfl
  have hcolonOk := Cursor.expect_eq hcolon (t := .symbol .colon) rfl
  simp only [Stmt.lexemes, length_wrap, List.length_cons, List.length_append] at hfuel
  obtain ⟨k, rfl⟩ := Nat.exists_eq_add_of_le' (show 2 ≤ fuel by omega)
  rcases hblock k (by omega) with ⟨body', hbody', hsame⟩
  refine ⟨.forEach c.pos collection' name body', ?_, ?_⟩
  · simp [stmt, Cursor.isAt_eq hwrapped.1, Cursor.atName, hwrapped.1, Terminal.isMetBy, forEach,
      hread, hback, hdotOk, hloopOk, Cursor.expectName_eq hname, hcolonOk, hbody', bind,
      Except.bind, pure, Except.pure]
  · simp only [Stmt.unplaced]
    rw [halike, hsame]

theorem readsStmt_function {pos : Pos} {name : String} {params : List Param}
    (hbody : ReadsBody floatText body) : ReadsStmt floatText (.function pos name params body) := by
  intro c after l hspans _ _ fuel hfuel
  rcases hspans with ⟨hfn, hname, hspans⟩
  rcases (spans_append _ _).mp hspans with ⟨colon, hparams, hcolon, hspans⟩
  rcases params_read hparams hcolon with ⟨params', hread, hsameParams⟩
  have hblock := block_reads hbody hspans
  have hfnOk := Cursor.expect_eq hfn (t := .keyword .fn) rfl
  have hcolonOk := Cursor.expect_eq hcolon (t := .symbol .colon) rfl
  simp only [Stmt.lexemes, List.length_cons, List.length_append] at hfuel
  obtain ⟨k, rfl⟩ := Nat.exists_eq_add_of_le' (show 2 ≤ fuel by omega)
  rcases hblock k (by omega) with ⟨body', hbody', hsame⟩
  refine ⟨.function c.pos name params' body', ?_, ?_⟩
  · simp [stmt, Cursor.isAt_eq hfn, Terminal.isMetBy, function, hfnOk, Cursor.expectName_eq hname,
      hread, hcolonOk, hbody', bind, Except.bind, pure, Except.pure]
  · simp only [Stmt.unplaced]
    rw [hsameParams, hsame]

mutual

/-- A printable statement is read back. -/
theorem readsStmt_of_printable : ∀ s : Stmt, s.Printable floatText → ReadsStmt floatText s
  | .print _ _, h => readsStmt_print h
  | .declare _, h => readsStmt_declare h
  | .assign _, h => readsStmt_assign h
  | .branch _ _ body rest, h =>
    readsStmt_branch h.1 h.2.2 (readsBody_of_printable body h.2.1)
      (readsRest_of_printable rest h.2.2)
  | .whileLoop _ _ body, h => readsStmt_whileLoop h.1 (readsBody_of_printable body h.2)
  | .forLoop _ _ _ _ body, h =>
    readsStmt_forLoop h.1 h.2.1 h.2.2.1 (readsBody_of_printable body h.2.2.2)
  | .forEach _ _ _ body, h => readsStmt_forEach h.1 (readsBody_of_printable body h.2)
  | .function _ _ _ body, h => readsStmt_function (readsBody_of_printable body h)
  | .exit pos, _ => readsStmt_exit pos
  | .ret _ _, h => readsStmt_ret h
  | .call _ _ _, h => readsStmt_call h

theorem readsBody_of_printable : ∀ body : List Stmt, AllPrintable floatText body →
    ReadsBody floatText body
  | [], _ => readsBody_nil
  | s :: rest, h =>
    readsBody_cons h (readsStmt_of_printable s h.1) (readsBody_of_printable rest h.2)

theorem readsRest_of_printable : ∀ rest : Else, rest.Printable floatText →
    ReadsRest floatText rest
  | .absent, _ => readsRest_absent
  | .body body, h => readsRest_body h.2 h.1 (readsBody_of_printable body h.2)
  | .branch _ _ body rest, h =>
    readsRest_branch h.1 h.2.2 (readsBody_of_printable body h.2.1)
      (readsRest_of_printable rest h.2.2)

end

end Statements

/-! ## Programs -/

section Programs

variable {floatText : Float → String} {c after : Cursor}

theorem stmts_reads {ss : List Stmt} (h : AllPrintable floatText ss)
    (hspans : Spans (stmtLexemes floatText ss) c after) (hend : after.lexeme? = some .eof) :
    Reads (ReadStmt.stmts · c) (ss.length + 1) (fun ss' => allUnplaced ss' = allUnplaced ss)
      after := by
  induction ss generalizing c with
  | nil =>
    cases hspans
    have hatEnd : after.atEnd = true := by
      rcases Option.map_eq_some_iff.mp hend with ⟨tok, htok, heof⟩
      simp [Cursor.atEnd, htok, heof]
    apply Reads.succ
    intro fuel _
    exact ⟨[], by simp [ReadStmt.stmts, hatEnd, pure, Except.pure], rfl⟩
  | cons s rest ih =>
    rcases (spans_append _ _).mp hspans with ⟨between, hfirst, hothers⟩
    rcases opening_spans h.1 hfirst with ⟨first, hat, hopens⟩
    rcases behind_stmt h.2 hothers hend (by decide) with ⟨x, hx, helse⟩
    have hatEnd : c.atEnd = false := not_atEnd hat hopens.notEnd
    have hlength := hfirst.length_le
    have hfuel : 4 * (s.lexemes floatText).length ≤ c.fuelFor := by
      unfold Cursor.fuelFor
      omega
    rcases readsStmt_of_printable s h.1 c between x hfirst hx helse c.fuelFor hfuel with
      ⟨s', hs', hsame⟩
    apply Reads.succ
    intro fuel hfuel
    rcases ih h.2 hothers fuel hfuel with ⟨others, hothers', hsame'⟩
    refine ⟨s' :: others, ?_, ?_⟩
    · simp [ReadStmt.stmts, hatEnd, hs', hothers', bind, Except.bind, pure, Except.pure]
    · simp only [allUnplaced]
      rw [hsame, hsame']

theorem length_stmtLexemes {ss : List Stmt} (h : AllPrintable floatText ss) :
    ss.length ≤ (stmtLexemes floatText ss).length := by
  induction ss with
  | nil => exact Nat.le_refl _
  | cons s rest ih =>
    have hpos := length_lexemes_pos h.1
    have hrest := ih h.2
    simp only [stmtLexemes, List.length_cons, List.length_append]
    omega

/-- A cursor over tokens that begin with some lexemes stands in front of them. -/
theorem spans_of_map {tokens : List Token} {ls more : List Lexeme}
    (h : tokens.map Token.lexeme = ls ++ more) (mode : Bool) :
    ∃ after, Spans ls ⟨tokens, mode⟩ after ∧ after.rest.map Token.lexeme = more := by
  induction ls generalizing tokens with
  | nil => exact ⟨⟨tokens, mode⟩, rfl, h⟩
  | cons l rest ih =>
    cases tokens with
    | nil => cases h
    | cons t ts =>
      rw [List.map_cons, List.cons_append, List.cons.injEq] at h
      rcases ih h.2 with ⟨after, hspans, hafter⟩
      refine ⟨after, ⟨?_, hspans⟩, hafter⟩
      rw [← h.1]
      rfl

/-- Tokens with the lexemes of a printable program are read as that program, up to its
places. -/
theorem parse_undoes_print (floatText : Float → String) {p : Program}
    (h : p.Printable floatText) {tokens : List Token}
    (htokens : tokens.map Token.lexeme = p.lexemes floatText ++ [.eof]) :
    ∃ p' c, (Cursor.ofTokens tokens).program = .ok (p', c) ∧ p'.unplaced = p.unplaced ∧
      c.rest.map Token.lexeme = [.eof] := by
  rcases spans_of_map htokens false with ⟨after, hspans, hafter⟩
  have hend : after.lexeme? = some .eof := by
    have hhead := congrArg List.head? hafter
    simpa [Cursor.lexeme?, Cursor.current?] using hhead
  have hlength := hspans.length_le
  have hcount := length_stmtLexemes h
  have hfuel : p.statements.length + 1 ≤ (Cursor.ofTokens tokens).fuelFor := by
    unfold Cursor.fuelFor
    simp only [Program.lexemes, Cursor.ofTokens] at hlength ⊢
    omega
  rcases stmts_reads h hspans hend _ hfuel with ⟨statements, hread, hsame⟩
  have hread' : ReadStmt.stmts (Cursor.ofTokens tokens).fuelFor (Cursor.ofTokens tokens) =
      .ok (statements, after) := hread
  refine ⟨⟨statements⟩, after, ?_, ?_, hafter⟩
  · rw [Cursor.program, hread']
    rfl
  · simp only [Program.unplaced]
    rw [hsame]

end Programs

/-- A call in the test of a branch, a further branch whose body ends in a branch, an
array of one element, and a call without arguments. -/
def nestedBranches : Program :=
  ⟨[.branch ⟨1, 1⟩ (.call ⟨1, 5⟩ "g" [.var ⟨1, 9⟩ "x"])
      [.print ⟨2, 1⟩ (.array ⟨2, 8⟩ [.float ⟨2, 10⟩ (floatOfNumeral "2.5")])]
      (.branch ⟨3, 6⟩ (.unary ⟨3, 10⟩ .not (.bool ⟨3, 12⟩ false))
        [.branch ⟨4, 1⟩ (.binary ⟨4, 6⟩ .le (.int ⟨4, 6⟩ 7) (.var ⟨4, 13⟩ "x")) [] .absent]
        (.body [.forEach ⟨6, 1⟩ (.index ⟨6, 3⟩ (.var ⟨6, 3⟩ "xs") (.int ⟨6, 7⟩ 0)) "y"
          [.call ⟨7, 1⟩ "h" []]]))]⟩

/-- The tokens of that program, all at one place. -/
def nestedBranchesTokens : List Token :=
  (nestedBranches.lexemes (fun _ => "2.5") ++ [Lexeme.eof]).map fun l => ⟨l, ⟨1, 1⟩⟩

theorem parse_undoes_print_nestedBranches :
    nestedBranches.Printable (fun _ => "2.5") ∧
      ∃ p c, (Cursor.ofTokens nestedBranchesTokens).program = .ok (p, c) ∧
        p.unplaced = nestedBranches.unplaced ∧ c.rest.map Token.lexeme = [.eof] := by
  have hprintable : nestedBranches.Printable (fun _ => "2.5") := by
    simp only [nestedBranches, Program.Printable, AllPrintable, Stmt.Printable, Else.Printable,
      Expr.Printable, PrintableAll]
    decide
  have htokens : nestedBranchesTokens.map Token.lexeme =
      nestedBranches.lexemes (fun _ => "2.5") ++ [.eof] := by
    rw [nestedBranchesTokens, List.map_map]
    exact List.map_id _
  exact ⟨hprintable, parse_undoes_print (fun _ => "2.5") hprintable htokens⟩

end Squishc.Surface
