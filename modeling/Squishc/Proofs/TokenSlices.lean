import Mathlib
import Squishc.Proofs.SpelledTokens

/-!
# Tokens cover their source

A source text that is scanned falls into slices, one for each token in front of the end
mark, and gaps between them.  A gap holds blanks, ends of lines and comments, each up to
the end of its line.  The text of a token is its slice, with the escapes resolved if it
is a string; words and runs of digits do not end before they have to; and a token knows
the line and the column at which its slice begins.

Scanning keeps its own place.  It is the true one except behind a comment, where only the
line is right; but there the line ends, and the next place is right again.

Main results:

- Theorem `Scan.step_cases`: what a step can do.
- Theorem `Scan.StepCase.tracks`: a step keeps the place right.
- Theorem `Scan.tokensFrom_covers`: so does a whole run, whose tokens cover the text.
- Theorem `tokens_cover_source`: slices, gaps, values and places of all tokens.
-/

namespace Squishc

namespace Scan

/-! ## Slices and gaps -/

/-- The place behind a text: one more than the ends of lines in it, and one more than the
characters since the last of them. -/
def placeAfter (before : List Char) : Pos :=
  ⟨1 + before.count '\n', 1 + (before.reverse.takeWhile (· ≠ '\n')).length⟩

/-- A text that is empty or begins with the end of a line. -/
def AtLineEnd (rest : List Char) : Prop := ∀ c ∈ rest.head?, c = '\n'

/-- Spaces and comments in front of a text.  A comment runs to the end of its line. -/
inductive Skipped : (gap rest : List Char) → Prop
  | nil {rest : List Char} : Skipped [] rest
  | space {c : Char} {gap rest : List Char} (hc : IsSpace c) (h : Skipped gap rest) :
    Skipped (c :: gap) rest
  | comment {text gap rest : List Char} (htext : '\n' ∉ text) (hend : AtLineEnd (gap ++ rest))
    (h : Skipped gap rest) : Skipped ('/' :: '/' :: text ++ gap) rest

/-- The characters that a text between quotes stands for. -/
inductive Unescapes : (text value : List Char) → Prop
  | nil : Unescapes [] []
  | plain {c : Char} {text value : List Char} (hc : c ≠ '"' ∧ c ≠ '\\' ∧ c ≠ '\n')
    (h : Unescapes text value) : Unescapes (c :: text) (c :: value)
  | escape {mark c : Char} {text value : List Char} (hmark : unescape? mark = some c)
    (h : Unescapes text value) : Unescapes ('\\' :: mark :: text) (c :: value)

/-- The text of a lexeme is its slice.  For a string, it is what stands between the quotes
of the slice, with the escapes resolved. -/
inductive HasText : Lexeme → (slice : List Char) → Prop
  | string {body value : List Char} (h : Unescapes body value) :
    HasText (.string (.ofList value)) ('"' :: body ++ ['"'])
  | verbatim {l : Lexeme} {slice : List Char} (hstring : ∀ value, l ≠ .string value)
    (htext : l.text = .ofList slice) : HasText l slice

/-- A letter or an underscore, and letters, underscores and digits behind it. -/
inductive IsWord : List Char → Prop
  | mk {c : Char} {rest : List Char} (hc : startsName c = true)
    (hrest : ∀ d ∈ rest, continuesName d = true) : IsWord (c :: rest)

/-- Words and runs of digits extend as far to the right as they can. -/
def ReachesEnd (l : Lexeme) (slice rest : List Char) : Prop :=
  match l with
  | .name _ | .keyword _ => IsWord slice ∧ Stops continuesName rest
  | .int _ | .float _ => Stops Char.isDigit rest
  | _ => True

/-- A token, the slice of the source that it was made from, and the gap in front of it. -/
structure Piece where
  gap : List Char
  slice : List Char
  token : Token

/-- The part of the source that belongs to a piece. -/
def Piece.text (p : Piece) : List Char := p.gap ++ p.slice

/-- A piece fits between what comes before it and what comes after it. -/
structure Piece.Fits (p : Piece) (before after : List Char) : Prop where
  gap : Skipped p.gap (p.slice ++ after)
  nonempty : p.slice ≠ []
  value : HasText p.token.lexeme p.slice
  reaches : ReachesEnd p.token.lexeme p.slice after
  pos : p.token.pos = placeAfter (before ++ p.gap)

/-- Every one of some pieces fits where it stands, and nothing but a gap is left behind
them. -/
def AllFit (before : List Char) : List Piece → (last : List Char) → Prop
  | [], last => Skipped last []
  | p :: rest, last =>
    p.Fits before (rest.flatMap Piece.text ++ last) ∧ AllFit (before ++ p.text) rest last

/-! ## What a step can do -/

/-- The outcomes of a step at a place, with the text that it takes and the text that it
leaves: an end of a line, a blank or a comment is skipped, or a slice becomes a token. -/
inductive StepCase (pos : Pos) : (taken left : List Char) → Option Token → Pos → Prop
  | newline {left : List Char} : StepCase pos ['\n'] left none pos.nextLine
  | blank {c : Char} {left : List Char} (hc : isBlank c = true) :
    StepCase pos [c] left none (pos.right 1)
  | comment {text left : List Char} (htext : '\n' ∉ text) (hend : AtLineEnd left) :
    StepCase pos ('/' :: '/' :: text) left none pos
  | token {l : Lexeme} {slice left : List Char} (hne : slice ≠ []) (hline : '\n' ∉ slice)
    (htext : HasText l slice) (hreach : ReachesEnd l slice left) :
    StepCase pos slice left (some ⟨l, pos⟩) (pos.right slice.length)

theorem stops_dropWhile (p : Char → Bool) (text : List Char) : Stops p (text.dropWhile p) := by
  intro c hc
  have h := List.head?_dropWhile_not p text
  rw [Option.mem_def.mp hc] at h
  simpa using h

theorem newline_not_mem_of_forall {p : Char → Bool} {text : List Char} (hp : p '\n' = false)
    (h : ∀ c ∈ text, p c = true) : '\n' ∉ text := by
  intro hmem
  rw [h _ hmem] at hp
  cases hp

theorem newline_not_mem_takeWhile {p : Char → Bool} (hp : p '\n' = false) (text : List Char) :
    '\n' ∉ text.takeWhile p :=
  newline_not_mem_of_forall hp (List.all_eq_true.mp List.all_takeWhile)

theorem fraction_cases {fault : Pos} {text places rest : List Char}
    (h : fraction fault text = .ok (places, rest)) (hstop : Stops Char.isDigit text) :
    text = places ++ rest ∧ '\n' ∉ places ∧ Stops Char.isDigit rest := by
  unfold fraction at h
  split at h
  · rename_i c tail
    split at h
    · cases h
      refine ⟨by rw [List.cons_append, List.takeWhile_append_dropWhile], ?_, stops_dropWhile _ _⟩
      simpa using newline_not_mem_takeWhile rfl (c :: tail)
    · split at h
      · cases h
        exact ⟨rfl, by simp, hstop⟩
      · cases h
  · cases h
  · cases h
    exact ⟨rfl, by simp, hstop⟩

theorem sign_cases (text : List Char) :
    text = (sign text).1 ++ (sign text).2 ∧ '\n' ∉ (sign text).1 := by
  unfold sign
  split <;> simp

theorem exponent_cases {fault : Pos} {text power rest : List Char}
    (h : exponent fault text = .ok (power, rest)) (hstop : Stops Char.isDigit text) :
    text = power ++ rest ∧ '\n' ∉ power ∧ Stops Char.isDigit rest := by
  unfold exponent at h
  split at h
  · cases h
    exact ⟨rfl, by simp, hstop⟩
  · rename_i mark tail
    split at h
    · rename_i hmark
      dsimp only at h
      split at h
      · cases h
      · cases h
        obtain ⟨hsplit, hsign⟩ := sign_cases tail
        have hmark' : mark ≠ '\n' := by
          rintro rfl
          cases hmark
        refine ⟨?_, ?_, stops_dropWhile _ _⟩
        · rw [List.cons_append, List.cons_append, List.append_assoc,
            List.takeWhile_append_dropWhile, ← hsplit]
        · simp only [List.cons_append, List.mem_cons, List.mem_append, not_or]
          exact ⟨hmark'.symm, hsign, newline_not_mem_takeWhile rfl _⟩
    · cases h
      exact ⟨rfl, by simp, hstop⟩

/-- A numeral is taken off the front of a text as it is, and no digit follows it. -/
theorem number_cases {pos : Pos} {text left : List Char} {l : Lexeme} {n : Nat}
    (h : number pos text = .ok (l, n, left)) : ∃ numeral, text = numeral ++ left ∧
      n = numeral.length ∧ '\n' ∉ numeral ∧ HasText l numeral ∧ ReachesEnd l numeral left := by
  unfold number at h
  dsimp only at h
  split at h
  · cases h
  · rename_i places rest hfraction
    split at h
    · cases h
    · rename_i power rest' hexponent
      cases h
      obtain ⟨hplaces, hline, hstop⟩ := fraction_cases hfraction (stops_dropWhile _ _)
      obtain ⟨hpower, hline', hstop'⟩ := exponent_cases hexponent hstop
      refine ⟨_, ?_, rfl, ?_, ?_, ?_⟩
      · rw [List.append_assoc, List.append_assoc, ← hpower, ← hplaces,
          List.takeWhile_append_dropWhile]
      · simp only [List.mem_append, not_or]
        exact ⟨⟨newline_not_mem_takeWhile rfl text, hline⟩, hline'⟩
      · split
        · exact .verbatim (by simp) rfl
        · exact .verbatim (by simp) rfl
      · split
        · exact hstop'
        · exact hstop'

/-- A string is taken off up to its closing quote. -/
theorem stringBody_cases {start pos after : Pos} {text value left : List Char}
    (h : stringBody start pos text = .ok (value, after, left)) : ∃ body,
      text = body ++ '"' :: left ∧ Unescapes body value ∧ after = pos.right (body.length + 1) := by
  fun_induction stringBody start pos text generalizing value after left with
  | case1 | case3 | case4 | case5 | case6 | case8 => cases h
  | case2 p tail =>
    cases h
    exact ⟨[], rfl, .nil, rfl⟩
  | case7 p mark tail v hmark value' after' rest' hrec ih =>
    cases h
    obtain ⟨body, rfl, hbody, rfl⟩ := ih hrec
    refine ⟨'\\' :: mark :: body, rfl, .escape hmark hbody, ?_⟩
    simp only [Pos.right, List.length_cons, Pos.mk.injEq, true_and]
    omega
  | case9 p c tail hquote hline hlast hback value' after' rest' hrec ih =>
    cases h
    obtain ⟨body, rfl, hbody, rfl⟩ := ih hrec
    have hslash : c ≠ '\\' := by
      rintro rfl
      cases body with
      | nil => exact hback _ _ rfl rfl
      | cons d body => exact hback _ _ rfl rfl
    refine ⟨c :: body, rfl, .plain ⟨hquote, hslash, hline⟩ hbody, ?_⟩
    simp only [Pos.right, List.length_cons, Pos.mk.injEq, true_and]
    omega

theorem Unescapes.newline_not_mem {text value : List Char} (h : Unescapes text value) :
    '\n' ∉ text := by
  induction h with
  | nil => simp
  | plain hc _ ih => simpa [ih] using Ne.symm hc.2.2
  | escape hmark _ ih =>
    simp only [List.mem_cons, not_or]
    refine ⟨by decide, ?_, ih⟩
    rintro rfl
    cases hmark

theorem symbol?_cases {text left : List Char} {mark : Symbol}
    (h : symbol? text = some (mark, left)) : text = mark.text.toList ++ left := by
  unfold symbol? at h
  split at h <;> cases h <;> rfl

theorem newline_not_mem_symbol (mark : Symbol) : '\n' ∉ mark.text.toList := by
  cases mark <;> simp [Symbol.text]

/-- A word is its own text, reserved or not. -/
theorem text_word (text : String) : (word text).text = text := by
  unfold word
  split
  · rename_i k hk
    exact beq_iff_eq.mp (List.find?_some (p := fun k : Keyword => k.text == text) hk)
  · rfl

theorem hasText_word (slice : List Char) : HasText (word (.ofList slice)) slice := by
  refine .verbatim ?_ (text_word _)
  intro value
  unfold word
  split <;> simp

theorem reachesEnd_word {slice rest : List Char} (hslice : IsWord slice)
    (hrest : Stops continuesName rest) : ReachesEnd (word (.ofList slice)) slice rest := by
  unfold word
  split
  · exact ⟨hslice, hrest⟩
  · exact ⟨hslice, hrest⟩

/-- What a step can do. -/
theorem step_cases {pos after : Pos} {c : Char} {rest left : List Char} {found : Option Token}
    (h : step pos c rest = .ok (found, after, left)) :
    ∃ taken, c :: rest = taken ++ left ∧ StepCase pos taken left found after := by
  unfold step at h
  split at h
  · rename_i hc
    cases h
    rw [beq_iff_eq.mp hc]
    exact ⟨['\n'], rfl, .newline⟩
  split at h
  · rename_i hc
    cases h
    exact ⟨[c], rfl, .blank hc⟩
  split at h
  · rename_i hc
    cases h
    simp only [Bool.and_eq_true, beq_iff_eq] at hc
    obtain ⟨rfl, hhead⟩ := hc
    obtain ⟨tail, rfl⟩ : ∃ tail, rest = '/' :: tail := List.head?_eq_some_iff.mp hhead
    rw [List.dropWhile_cons_of_pos rfl]
    refine ⟨'/' :: '/' :: tail.takeWhile (· != '\n'), ?_, .comment ?_ ?_⟩
    · rw [List.cons_append, List.cons_append, List.takeWhile_append_dropWhile]
    · exact newline_not_mem_takeWhile rfl tail
    · intro c hc
      simpa using stops_dropWhile (· != '\n') tail c hc
  split at h
  · rename_i hc
    split at h
    · cases h
    · rename_i hnumber
      cases h
      obtain ⟨numeral, htext, rfl, hline, hvalue, hreach⟩ := number_cases hnumber
      refine ⟨numeral, htext, .token ?_ hline hvalue hreach⟩
      rintro rfl
      have hshort := number_shorter hc hnumber
      rw [← (List.nil_append left ▸ htext : c :: rest = left), List.length_cons] at hshort
      omega
  split at h
  · rename_i hc
    split at h
    · cases h
    · rename_i value end_ _ hbody
      cases h
      obtain ⟨body, rfl, hvalue, rfl⟩ := stringBody_cases hbody
      have hline : '\n' ∉ '"' :: body ++ ['"'] := by simp [hvalue.newline_not_mem]
      have hafter : (pos.right 1).right (body.length + 1) =
          pos.right ('"' :: body ++ ['"']).length := by
        simp only [Pos.right, List.length_append, List.length_cons, List.length_nil, Pos.mk.injEq,
          true_and]
        omega
      rw [beq_iff_eq.mp hc, hafter]
      exact ⟨'"' :: body ++ ['"'], by simp, .token (by simp) hline (.string hvalue) trivial⟩
  split at h
  · rename_i hc
    cases h
    have hrest : ∀ d ∈ rest.takeWhile continuesName, continuesName d = true :=
      List.all_eq_true.mp List.all_takeWhile
    have hline : '\n' ∉ c :: rest.takeWhile continuesName := by
      refine newline_not_mem_of_forall (p := continuesName) rfl ?_
      rw [List.forall_mem_cons]
      exact ⟨Bool.or_eq_true_iff.mpr (.inl hc), hrest⟩
    refine ⟨c :: rest.takeWhile continuesName, ?_, .token (by simp) hline (hasText_word _) ?_⟩
    · rw [List.cons_append, List.takeWhile_append_dropWhile]
    · exact reachesEnd_word (.mk hc hrest) (stops_dropWhile continuesName rest)
  split at h
  · rename_i mark _ hsymbol
    cases h
    refine ⟨mark.text.toList, symbol?_cases hsymbol,
      .token ?_ (newline_not_mem_symbol mark) ?_ trivial⟩
    · cases mark <;> simp [Symbol.text]
    · exact .verbatim (by simp) (by simp [Lexeme.text])
  · cases h

/-- What a step skips belongs to the gap in front of the next token. -/
theorem StepCase.skips {pos after : Pos} {taken gap rest : List Char}
    (h : StepCase pos taken (gap ++ rest) none after) (hgap : Skipped gap rest) :
    Skipped (taken ++ gap) rest := by
  cases h with
  | newline => exact .space .newline hgap
  | blank hc => exact .space (.of_isBlank hc) hgap
  | comment htext hend => exact .comment htext hend hgap

/-! ## Places -/

theorem placeAfter_newline (before : List Char) :
    placeAfter (before ++ ['\n']) = (placeAfter before).nextLine := by
  simp [placeAfter, Pos.nextLine]
  omega

theorem placeAfter_append {text : List Char} (h : '\n' ∉ text) (before : List Char) :
    placeAfter (before ++ text) = (placeAfter before).right text.length := by
  have htake : ∀ c ∈ text.reverse, decide (c ≠ '\n') = true := by
    intro c hc
    rw [decide_eq_true_eq]
    rintro rfl
    exact h (List.mem_reverse.mp hc)
  simp only [placeAfter, Pos.right, List.count_append, List.count_eq_zero.mpr h,
    List.reverse_append, List.takeWhile_append_of_pos htake, List.length_append,
    List.length_reverse, Pos.mk.injEq, Nat.add_zero, true_and]
  omega

/-- A place is the one behind a text, or on the right line where the line ends. -/
structure Tracks (pos : Pos) (before rest : List Char) : Prop where
  line : pos.line = (placeAfter before).line
  col : pos.col = (placeAfter before).col ∨ AtLineEnd rest

theorem Tracks.of_eq {pos : Pos} {before : List Char} (h : pos = placeAfter before)
    (rest : List Char) : Tracks pos before rest := by
  subst h
  exact ⟨rfl, .inl rfl⟩

theorem Tracks.start (text : List Char) : Tracks .start [] text :=
  .of_eq (rfl : Pos.start = placeAfter []) text

theorem Tracks.eq {pos : Pos} {before rest : List Char} (h : Tracks pos before rest)
    (hrest : ¬ AtLineEnd rest) : pos = placeAfter before := by
  rcases pos with ⟨line, col⟩
  exact congr (congrArg Pos.mk h.line) (h.col.resolve_right hrest)

/-- A text in front of another that does not begin with the end of a line. -/
theorem not_atLineEnd {text : List Char} (hne : text ≠ []) (hline : '\n' ∉ text)
    (rest : List Char) : ¬ AtLineEnd (text ++ rest) := by
  obtain ⟨c, tail, rfl⟩ := List.exists_cons_of_ne_nil hne
  intro h
  rw [← h c rfl] at hline
  exact hline List.mem_cons_self

/-- A step keeps the place right. -/
theorem StepCase.tracks {pos after : Pos} {taken left before : List Char} {found : Option Token}
    (h : StepCase pos taken left found after) (hpos : Tracks pos before (taken ++ left)) :
    Tracks after (before ++ taken) left := by
  cases h with
  | newline =>
    refine .of_eq ?_ _
    rw [placeAfter_newline, Pos.nextLine, Pos.nextLine, hpos.line]
  | @blank c _ hc =>
    have hline : '\n' ∉ [c] := by
      intro hmem
      rw [← List.mem_singleton.mp hmem] at hc
      cases hc
    refine .of_eq ?_ _
    rw [placeAfter_append hline, ← hpos.eq (not_atLineEnd (by simp) hline left)]
    rfl
  | @comment text _ htext hend =>
    have hline : '\n' ∉ '/' :: '/' :: text := by simpa using htext
    refine ⟨?_, .inr hend⟩
    rw [placeAfter_append hline]
    exact hpos.line
  | token hne hline _ _ =>
    refine .of_eq ?_ _
    rw [placeAfter_append hline, ← hpos.eq (not_atLineEnd hne hline left)]

/-- What a step makes a token of is a piece that fits. -/
theorem StepCase.fits {pos after : Pos} {taken left before : List Char} {t : Token}
    (h : StepCase pos taken left (some t) after) (hpos : Tracks pos before (taken ++ left)) :
    Piece.Fits ⟨[], taken, t⟩ before left := by
  cases h with
  | token hne hline htext hreach =>
    refine ⟨.nil, hne, htext, hreach, ?_⟩
    rw [List.append_nil]
    exact hpos.eq (not_atLineEnd hne hline left)

/-! ## Whole runs -/

/-- A gap can be put in front of pieces that fit. -/
theorem AllFit.skip {taken before last : List Char} {pieces : List Piece}
    (hskip : ∀ {gap rest}, gap ++ rest = pieces.flatMap Piece.text ++ last → Skipped gap rest →
      Skipped (taken ++ gap) rest)
    (h : AllFit (before ++ taken) pieces last) : ∃ pieces' last',
      pieces'.map Piece.token = pieces.map Piece.token ∧
      pieces'.flatMap Piece.text ++ last' = taken ++ (pieces.flatMap Piece.text ++ last) ∧
      AllFit before pieces' last' := by
  cases pieces with
  | nil => exact ⟨[], taken ++ last, rfl, rfl, hskip (List.append_nil last) h⟩
  | cons p rest =>
    obtain ⟨hfits, hrest⟩ := h
    refine ⟨⟨taken ++ p.gap, p.slice, p.token⟩ :: rest, last, rfl, ?_, ?_, ?_⟩
    · simp [Piece.text]
    · refine ⟨hskip ?_ hfits.gap, hfits.nonempty, hfits.value, hfits.reaches, ?_⟩
      · simp [Piece.text]
      · rw [hfits.pos, List.append_assoc]
    · simpa [Piece.text] using hrest

/-- The tokens of a text cover it. -/
theorem tokensFrom_covers {pos : Pos} {text before : List Char} {tokens : List Token}
    (h : tokensFrom pos text = .ok tokens) (hpos : Tracks pos before text) :
    ∃ pieces last endPos, tokens = pieces.map Piece.token ++ [⟨.eof, endPos⟩] ∧
      text = pieces.flatMap Piece.text ++ last ∧ AllFit before pieces last := by
  -- the invariant of the run is `Tracks`; the pieces are put together from the end
  fun_induction tokensFrom pos text generalizing before tokens with
  | case1 pos =>
    cases h
    exact ⟨[], [], pos, rfl, rfl, .nil⟩
  | case2 | case3 => cases h
  | case4 pos c rest found after left hstep others hothers ih =>
    cases h
    obtain ⟨taken, htext, hcase⟩ := step_cases hstep
    rw [htext] at hpos ⊢
    obtain ⟨pieces, last, endPos, htokens, hleft, hfit⟩ := ih hothers (hcase.tracks hpos)
    subst hleft
    cases found with
    | none =>
      obtain ⟨pieces', last', htokens', htext', hfit'⟩ :=
        hfit.skip fun heq hgap => StepCase.skips (heq ▸ hcase) hgap
      exact ⟨pieces', last', endPos, by rw [htokens', htokens]; rfl, htext'.symm, hfit'⟩
    | some t =>
      refine ⟨⟨[], taken, t⟩ :: pieces, last, endPos, by rw [htokens]; rfl, ?_, hcase.fits hpos, ?_⟩
      · simp [Piece.text]
      · simpa [Piece.text] using hfit

theorem AllFit.fits {pieces : List Piece} {before last : List Char}
    (h : AllFit before pieces last) {earlier later : List Piece} {p : Piece}
    (hpieces : pieces = earlier ++ p :: later) :
    p.Fits (before ++ earlier.flatMap Piece.text) (later.flatMap Piece.text ++ last) := by
  subst hpieces
  induction earlier generalizing before with
  | nil => simpa using h.1
  | cons q earlier ih => simpa using ih h.2

theorem AllFit.last {pieces : List Piece} {before last : List Char}
    (h : AllFit before pieces last) : Skipped last [] := by
  induction pieces generalizing before with
  | nil => exact h
  | cons p rest ih => exact ih h.2

end Scan

open Scan

/-- The tokens of a source in front of the end mark are made from slices of it, in their
order and with nothing but gaps between them. -/
theorem tokens_cover_source {source : String} {tokens : List Token}
    (h : tokenize source = .ok tokens) :
    ∃ pieces last endPos, tokens = pieces.map Piece.token ++ [⟨.eof, endPos⟩] ∧
      source.toList = pieces.flatMap Piece.text ++ last ∧ Skipped last [] ∧
      ∀ earlier p later, pieces = earlier ++ p :: later →
        p.Fits (earlier.flatMap Piece.text) (later.flatMap Piece.text ++ last) := by
  obtain ⟨pieces, last, endPos, htokens, htext, hfit⟩ :=
    tokensFrom_covers h (.start source.toList)
  exact ⟨pieces, last, endPos, htokens, htext, hfit.last, fun _ _ _ hp => hfit.fits hp⟩

/-- Two lines, each with a comment at its end. -/
def commentedLines : String := "x1 = 12.loop // two\r\n\tspeak \"a\\n\" ** 1.5e-3//end"

/-- The tokens of the two lines. -/
def commentedTokens : List Token :=
  [⟨.name "x1", ⟨1, 1⟩⟩, ⟨.symbol .assign, ⟨1, 4⟩⟩, ⟨.int "12", ⟨1, 6⟩⟩, ⟨.symbol .dot, ⟨1, 8⟩⟩,
    ⟨.keyword .loop, ⟨1, 9⟩⟩, ⟨.keyword .speak, ⟨2, 2⟩⟩, ⟨.string "a\n", ⟨2, 8⟩⟩,
    ⟨.symbol .pow, ⟨2, 14⟩⟩, ⟨.float "1.5e-3", ⟨2, 17⟩⟩, ⟨.eof, ⟨2, 23⟩⟩]

theorem commentedTokens_cover_source :
    tokenize commentedLines = .ok commentedTokens ∧
    ∃ pieces last endPos, commentedTokens = pieces.map Piece.token ++ [⟨.eof, endPos⟩] ∧
      commentedLines.toList = pieces.flatMap Piece.text ++ last ∧ Skipped last [] ∧
      ∀ earlier p later, pieces = earlier ++ p :: later →
        p.Fits (earlier.flatMap Piece.text) (later.flatMap Piece.text ++ last) := by
  have htokens : tokenize commentedLines = .ok commentedTokens := by cbv
  exact ⟨htokens, tokens_cover_source htokens⟩

end Squishc
