import Squishc.Js.StringText
import Squishc.Token.Scan

/-!
# Spelled tokens are scanned again

A list of lexemes is spelled by writing them one after another with separators in
between.  A separator begins with a blank or the end of a line and goes on with any
number of these and of comments, each up to the end of its line.  Scanning such a text
gives back the lexemes, and the end mark behind them.

Main results:

- Theorem `Scan.number_spelled`: the parts of a numeral are found again.
- Theorem `Scan.stringBody_escaped`: the value of an escaped text is read back.
- Theorem `Scan.Spelled.scans`: a lexeme in front of a separator is scanned alone.
- Theorem `tokenize_printed`: a printed list of lexemes is scanned as this list.
-/

namespace Squishc

namespace Scan

/-! ## How lexemes are written -/

/-- Digits, at least one. -/
def IsDigits (text : List Char) : Prop := text ≠ [] ∧ ∀ c ∈ text, c.isDigit = true

/-- A fraction, or nothing. -/
inductive IsFraction : List Char → Prop
  | absent : IsFraction []
  | present {digits : List Char} (h : IsDigits digits) : IsFraction ('.' :: digits)

/-- The mark of an exponent. -/
inductive IsMark : Char → Prop
  | lower : IsMark 'e'
  | upper : IsMark 'E'

/-- The sign of an exponent, or nothing. -/
inductive IsSign : List Char → Prop
  | absent : IsSign []
  | plus : IsSign ['+']
  | minus : IsSign ['-']

/-- An exponent, or nothing. -/
inductive IsExponent : List Char → Prop
  | absent : IsExponent []
  | present {mark : Char} {sign digits : List Char} (hmark : IsMark mark) (hsign : IsSign sign)
    (h : IsDigits digits) : IsExponent (mark :: sign ++ digits)

/-- A character of string literals.  The escapes of the other four are not read. -/
def Quotable (c : Char) : Prop := c ≠ '\x0c' ∧ c ≠ '\x0b' ∧ c ≠ '\x00' ∧ c ≠ '\x7f'

/-- The ways to write a lexeme.  A string is written between quotes and with escapes. -/
inductive Spelled : Lexeme → List Char → Prop
  | int {digits : List Char} (h : IsDigits digits) : Spelled (.int (.ofList digits)) digits
  | float {whole places power : List Char} (hwhole : IsDigits whole) (hplaces : IsFraction places)
    (hpower : IsExponent power) (hsome : places ≠ [] ∨ power ≠ []) :
    Spelled (.float (.ofList (whole ++ places ++ power))) (whole ++ places ++ power)
  | name {c : Char} {rest : List Char} (hc : startsName c = true)
    (hrest : ∀ d ∈ rest, continuesName d = true)
    (hkeyword : Keyword.ofText? (.ofList (c :: rest)) = none) :
    Spelled (.name (.ofList (c :: rest))) (c :: rest)
  | keyword (k : Keyword) : Spelled (.keyword k) k.text.toList
  | symbol (s : Symbol) : Spelled (.symbol s) s.text.toList
  | string {value : String} (h : ∀ c ∈ value.toList, Quotable c) :
    Spelled (.string value) ('"' :: (Js.escape value).toList ++ ['"'])

/-- A blank or the end of a line. -/
inductive IsSpace : Char → Prop
  | blank : IsSpace ' '
  | tab : IsSpace '\t'
  | ret : IsSpace '\r'
  | newline : IsSpace '\n'

/-- Spaces and comments. -/
inductive IsGap : List Char → Prop
  | nil : IsGap []
  | space {c : Char} {rest : List Char} (hc : IsSpace c) (hrest : IsGap rest) : IsGap (c :: rest)
  | comment {text rest : List Char} (htext : ∀ c ∈ text, c ≠ '\n') (hrest : IsGap rest) :
    IsGap ('/' :: '/' :: text ++ '\n' :: rest)

/-- A separator of lexemes. -/
inductive IsSeparator : List Char → Prop
  | mk {c : Char} {rest : List Char} (hc : IsSpace c) (hrest : IsGap rest) :
    IsSeparator (c :: rest)

/-- Lexemes written one after another, with separators in between. -/
inductive Printed : List Lexeme → List Char → Prop
  | nil : Printed [] []
  | last {l : Lexeme} {text : List Char} (h : Spelled l text) : Printed [l] text
  | cons {l next : Lexeme} {others : List Lexeme} {text separator rest : List Char}
    (h : Spelled l text) (hseparator : IsSeparator separator)
    (hrest : Printed (next :: others) rest) :
    Printed (l :: next :: others) (text ++ separator ++ rest)

/-! ## Steps -/

/-- Wherever it begins, the front of a text is scanned as some lexemes and the rest is
left. -/
def Scans (text : List Char) (lexemes : List Lexeme) (rest : List Char) : Prop :=
  ∀ pos, ∃ after tokens, tokens.map Token.lexeme = lexemes ∧
    tokensFrom pos text = (tokensFrom after rest).map (tokens ++ ·)

theorem tokensFrom_cons {pos after : Pos} {c : Char} {rest left : List Char} {found : Option Token}
    (h : step pos c rest = .ok (found, after, left)) :
    tokensFrom pos (c :: rest) = (tokensFrom after left).map (found.toList ++ ·) := by
  rw [tokensFrom]
  split
  · rename_i hstep
    rw [h] at hstep
    cases hstep
  · rename_i hstep
    rw [h] at hstep
    cases hstep
    cases tokensFrom after left <;> rfl

namespace Scans

variable {text rest left : List Char} {lexemes others : List Lexeme} {c : Char}

theorem refl (text : List Char) : Scans text [] text := by
  intro pos
  refine ⟨pos, [], rfl, ?_⟩
  cases tokensFrom pos text <;> rfl

theorem trans (h : Scans text lexemes rest) (h' : Scans rest others left) :
    Scans text (lexemes ++ others) left := by
  intro pos
  obtain ⟨middle, tokens, hlexemes, htext⟩ := h pos
  obtain ⟨after, tokens', hothers, hrest⟩ := h' middle
  refine ⟨after, tokens ++ tokens', by rw [List.map_append, hlexemes, hothers], ?_⟩
  rw [htext, hrest]
  cases tokensFrom after left with
  | error f => rfl
  | ok ts => exact congrArg Except.ok (List.append_assoc tokens tokens' ts).symm

theorem skip (h : ∀ pos, ∃ after, step pos c rest = .ok (none, after, left)) :
    Scans (c :: rest) [] left := by
  intro pos
  obtain ⟨after, hstep⟩ := h pos
  exact ⟨after, [], rfl, tokensFrom_cons hstep⟩

theorem token {l : Lexeme}
    (h : ∀ pos, ∃ after, step pos c rest = .ok (some ⟨l, pos⟩, after, left)) :
    Scans (c :: rest) [l] left := by
  intro pos
  obtain ⟨after, hstep⟩ := h pos
  exact ⟨after, [⟨l, pos⟩], rfl, tokensFrom_cons hstep⟩

end Scans

/-! ## Separators -/

theorem IsGap.scans {gap : List Char} (h : IsGap gap) (rest : List Char) :
    Scans (gap ++ rest) [] rest := by
  induction h with
  | nil => exact Scans.refl rest
  | space hc _ ih => exact Scans.trans (Scans.skip fun pos => by cases hc <;> exact ⟨_, rfl⟩) ih
  | @comment text gap htext _ ih =>
    have hline : ('/' :: (text ++ '\n' :: (gap ++ rest))).dropWhile (· != '\n') =
        '\n' :: (gap ++ rest) := by
      rw [List.dropWhile_cons_of_pos rfl, List.dropWhile_append_of_pos (by simpa using htext)]
      rfl
    have hcomment : Scans ('/' :: '/' :: (text ++ '\n' :: (gap ++ rest))) []
        ('\n' :: (gap ++ rest)) :=
      Scans.skip fun pos => ⟨pos, congrArg (fun left => Except.ok (none, pos, left)) hline⟩
    have hbreak : Scans ('\n' :: (gap ++ rest)) [] (gap ++ rest) := Scans.skip fun _ => ⟨_, rfl⟩
    simpa using (hcomment.trans hbreak).trans ih

/-! ## Where a lexeme ends -/

/-- A text that does not begin with a character of a class. -/
def Stops (p : Char → Bool) (rest : List Char) : Prop := ∀ c ∈ rest.head?, p c = false

theorem Stops.takeWhile_append {p : Char → Bool} {taken rest : List Char} (hrest : Stops p rest)
    (h : ∀ c ∈ taken, p c = true) : (taken ++ rest).takeWhile p = taken := by
  rw [List.takeWhile_append_of_pos h]
  cases rest with
  | nil => exact List.append_nil taken
  | cons c left => rw [List.takeWhile_cons_of_neg (by simp [hrest c rfl]), List.append_nil]

theorem Stops.dropWhile_append {p : Char → Bool} {taken rest : List Char} (hrest : Stops p rest)
    (h : ∀ c ∈ taken, p c = true) : (taken ++ rest).dropWhile p = rest := by
  rw [List.dropWhile_append_of_pos h]
  cases rest with
  | nil => rfl
  | cons c left => rw [List.dropWhile_cons_of_neg (by simp [hrest c rfl])]

/-- A text that is empty or begins with a space. -/
def Breaks (rest : List Char) : Prop := ∀ c ∈ rest.head?, IsSpace c

theorem IsSpace.isDigit_eq {c : Char} (h : IsSpace c) : c.isDigit = false := by
  cases h <;> rfl

theorem IsSpace.continuesName_eq {c : Char} (h : IsSpace c) : continuesName c = false := by
  cases h <;> rfl

theorem IsSpace.of_newline {c : Char} (h : (c == '\n') = true) : IsSpace c := by
  rw [beq_iff_eq.mp h]
  exact .newline

theorem IsSpace.of_isBlank {c : Char} (h : isBlank c = true) : IsSpace c := by
  simp only [isBlank, Bool.or_eq_true, beq_iff_eq] at h
  rcases h with (rfl | rfl) | rfl
  · exact .blank
  · exact .tab
  · exact .ret

namespace Breaks

variable {rest : List Char}

theorem eq_nil_or_cons (h : Breaks rest) : rest = [] ∨ ∃ c left, rest = c :: left ∧ IsSpace c := by
  cases rest with
  | nil => exact .inl rfl
  | cons c left => exact .inr ⟨c, left, rfl, h c rfl⟩

theorem stops_digits (h : Breaks rest) : Stops Char.isDigit rest :=
  fun c hc => (h c hc).isDigit_eq

theorem stops_name (h : Breaks rest) : Stops continuesName rest :=
  fun c hc => (h c hc).continuesName_eq

end Breaks

/-! ## Numerals -/

theorem IsExponent.stops {power rest : List Char} (h : IsExponent power) (hrest : Breaks rest) :
    Stops Char.isDigit (power ++ rest) := by
  cases h with
  | absent => exact hrest.stops_digits
  | present hmark =>
    rintro c ⟨⟩
    cases hmark <;> rfl

theorem sign_spelled {sign digits : List Char} (h : IsSign sign) (hdigits : IsDigits digits)
    (rest : List Char) : Scan.sign (sign ++ (digits ++ rest)) = (sign, digits ++ rest) := by
  cases h with
  | absent =>
    obtain ⟨d, ds, rfl⟩ := List.exists_cons_of_ne_nil hdigits.1
    have hd := hdigits.2 d List.mem_cons_self
    unfold Scan.sign
    -- neither sign is a digit
    split
    · rename_i heq
      cases heq
      cases hd
    · rename_i heq
      cases heq
      cases hd
    · rfl
  | plus => rfl
  | minus => rfl

theorem exponent_spelled {power rest : List Char} (h : IsExponent power) (hrest : Breaks rest)
    (fault : Pos) : exponent fault (power ++ rest) = .ok (power, rest) := by
  cases h with
  | absent =>
    rcases hrest.eq_nil_or_cons with rfl | ⟨c, left, rfl, hc⟩
    · rfl
    · cases hc <;> rfl
  | @present mark sign digits hmark hsign hdigits =>
    have hmark' : (mark == 'e' || mark == 'E') = true := by cases hmark <;> rfl
    have hsome : ¬ digits.isEmpty = true := by simpa using hdigits.1
    rw [List.append_assoc, List.cons_append, exponent, if_pos hmark', sign_spelled hsign hdigits]
    dsimp only
    rw [hrest.stops_digits.takeWhile_append hdigits.2,
      hrest.stops_digits.dropWhile_append hdigits.2, if_neg hsome]

theorem fraction_spelled {places rest : List Char} (h : IsFraction places)
    (hdigits : Stops Char.isDigit rest) (hpoint : ∀ c ∈ rest.head?, c ≠ '.') (fault : Pos) :
    fraction fault (places ++ rest) = .ok (places, rest) := by
  cases h with
  | absent =>
    rw [List.nil_append]
    unfold fraction
    split
    · exact absurd rfl (hpoint '.' rfl)
    · exact absurd rfl (hpoint '.' rfl)
    · rfl
  | @present digits h =>
    obtain ⟨d, ds, rfl⟩ := List.exists_cons_of_ne_nil h.1
    have htake := hdigits.takeWhile_append h.2
    have hdrop := hdigits.dropWhile_append h.2
    rw [List.cons_append] at htake hdrop
    rw [List.cons_append, List.cons_append, fraction, if_pos (h.2 d List.mem_cons_self), htake,
      hdrop]

/-- The parts of a numeral are found again. -/
theorem number_spelled {whole places power rest : List Char} (hwhole : IsDigits whole)
    (hplaces : IsFraction places) (hpower : IsExponent power) (hrest : Breaks rest) (pos : Pos) :
    number pos (whole ++ places ++ power ++ rest) =
      .ok (if places.isEmpty && power.isEmpty then
          Lexeme.int (.ofList (whole ++ places ++ power))
        else Lexeme.float (.ofList (whole ++ places ++ power)),
        (whole ++ places ++ power).length, rest) := by
  have hend : Stops Char.isDigit (places ++ (power ++ rest)) := by
    cases hplaces with
    | absent => exact hpower.stops hrest
    | present h =>
      rintro c ⟨⟩
      rfl
  have hpoint : ∀ c ∈ (power ++ rest).head?, c ≠ '.' := by
    cases hpower with
    | absent =>
      intro c hc
      cases hrest c hc <;> decide
    | present hmark =>
      rintro c ⟨⟩
      cases hmark <;> decide
  have htext : whole ++ places ++ power ++ rest = whole ++ (places ++ (power ++ rest)) := by
    simp only [List.append_assoc]
  rw [number, htext, hend.takeWhile_append hwhole.2, hend.dropWhile_append hwhole.2,
    fraction_spelled hplaces (hpower.stops hrest) hpoint]
  dsimp only
  rw [exponent_spelled hpower hrest]

theorem step_number {pos : Pos} {c : Char} {rest left : List Char} {l : Lexeme} {n : Nat}
    (hc : c.isDigit = true) (h : number pos (c :: rest) = .ok (l, n, left)) :
    step pos c rest = .ok (some ⟨l, pos⟩, pos.right n, left) := by
  have hspace : ¬ IsSpace c := fun hs => Bool.false_ne_true (hs.isDigit_eq.symm.trans hc)
  have hslash : ¬ (c == '/' && rest.head? == some '/') = true := by
    intro hs
    rw [beq_iff_eq.mp (Bool.and_eq_true_iff.mp hs).1] at hc
    cases hc
  unfold step
  rw [if_neg (mt .of_newline hspace), if_neg (mt .of_isBlank hspace), if_neg hslash, if_pos hc, h]

theorem IsDigits.scans {whole places power rest : List Char} (hwhole : IsDigits whole)
    (hplaces : IsFraction places) (hpower : IsExponent power) (hrest : Breaks rest) :
    Scans (whole ++ places ++ power ++ rest)
      [if places.isEmpty && power.isEmpty then .int (.ofList (whole ++ places ++ power))
        else .float (.ofList (whole ++ places ++ power))] rest := by
  obtain ⟨c, digits, rfl⟩ := List.exists_cons_of_ne_nil hwhole.1
  have hc := hwhole.2 c List.mem_cons_self
  exact Scans.token fun pos =>
    ⟨_, step_number hc (number_spelled hwhole hplaces hpower hrest pos)⟩

/-! ## Strings -/

/-- A written character is one character of the value. -/
theorem stringBody_escapeChar {c : Char} (hc : Quotable c) (start pos : Pos) (text : List Char) :
    ∃ middle, stringBody start pos (Js.escapeChar c ++ text) =
      (stringBody start middle text).map fun (value, after, rest) => (c :: value, after, rest) := by
  have hescape : ∀ mark, unescape? mark = some c →
      stringBody start pos ('\\' :: mark :: text) =
        (stringBody start (pos.right 2) text).map
          fun (value, after, rest) => (c :: value, after, rest) := by
    intro mark hmark
    rw [stringBody, hmark]
    cases stringBody start (pos.right 2) text <;> rfl
  obtain ⟨hfeed, hvtab, hnul, hdel⟩ := hc
  unfold Js.escapeChar
  split
  -- a character that stands for itself; it is no quote, end of line or backslash
  case h_10 hback hquote hline _ _ _ _ _ _ =>
    refine ⟨pos.right 1, ?_⟩
    rw [List.singleton_append, stringBody]
    · cases stringBody start (pos.right 1) text <;> rfl
    · exact hquote
    · exact hline
    · exact fun h _ => hback h
    · exact fun _ _ h _ => hback h
  all_goals first
    | exact absurd rfl ‹_›
    | exact ⟨_, hescape _ rfl⟩

/-- The value of an escaped text is read back. -/
theorem stringBody_escaped {value : List Char} (h : ∀ c ∈ value, Quotable c) (start : Pos)
    (rest : List Char) :
    ∀ pos, ∃ after, stringBody start pos (value.flatMap Js.escapeChar ++ '"' :: rest) =
      .ok (value, after, rest) := by
  induction value with
  | nil => exact fun pos => ⟨pos.right 1, rfl⟩
  | cons c value ih =>
    intro pos
    obtain ⟨middle, hc⟩ := stringBody_escapeChar (h c List.mem_cons_self) start pos
      (value.flatMap Js.escapeChar ++ '"' :: rest)
    obtain ⟨after, hvalue⟩ := ih (fun d hd => h d (List.mem_cons_of_mem c hd)) middle
    refine ⟨after, ?_⟩
    rw [List.flatMap_cons, List.append_assoc, hc, hvalue]
    rfl

theorem step_quote {pos after : Pos} {rest left value : List Char}
    (h : stringBody pos (pos.right 1) rest = .ok (value, after, left)) :
    step pos '"' rest = .ok (some ⟨.string (.ofList value), pos⟩, after, left) := by
  simp [step, isBlank, h]

/-! ## Words and symbols -/

/-- Letters and the underscore come after the digits. -/
theorem isDigit_eq_of_startsName {c : Char} (h : startsName c = true) : c.isDigit = false := by
  rw [Bool.eq_false_iff]
  intro hdigit
  have hle : c.toNat < 65 := by
    simp [Char.isDigit, UInt32.le_iff_toNat_le] at hdigit
    omega
  have hletter : Text.isLetter c = false := by
    show Text.inRanges ((65, 90) :: _) c.toNat = false
    rw [Text.inRanges, if_pos hle]
  rcases Bool.or_eq_true_iff.mp h with h | h
  · rw [hletter] at h
    cases h
  · rw [beq_iff_eq.mp h] at hdigit
    cases hdigit

theorem Scans.word {c : Char} {text rest : List Char} (hc : startsName c = true)
    (htext : ∀ d ∈ text, continuesName d = true) (hrest : Breaks rest) :
    Scans (c :: text ++ rest) [Scan.word (.ofList (c :: text))] rest := by
  have hnext : continuesName c = true := Bool.or_eq_true_iff.mpr (.inl hc)
  have hspace : ¬ IsSpace c := fun hs => Bool.false_ne_true (hs.continuesName_eq.symm.trans hnext)
  have hne : ∀ d, startsName d = false → ¬ (c == d) = true := by
    intro d hd heq
    rw [beq_iff_eq.mp heq, hd] at hc
    cases hc
  have hslash : ¬ (c == '/' && (text ++ rest).head? == some '/') = true :=
    fun hs => hne '/' rfl (Bool.and_eq_true_iff.mp hs).1
  have hdigit : ¬ c.isDigit = true := Bool.eq_false_iff.mp (isDigit_eq_of_startsName hc)
  refine Scans.token fun pos => ⟨pos.right (c :: text).length, ?_⟩
  rw [List.append_eq, step, if_neg (mt .of_newline hspace), if_neg (mt .of_isBlank hspace),
    if_neg hslash, if_neg hdigit, if_neg (hne '"' rfl), if_pos hc,
    hrest.stops_name.takeWhile_append htext, hrest.stops_name.dropWhile_append htext]

/-- A reserved word is a word, and is recognised. -/
theorem keyword_word (k : Keyword) : ∃ c text, k.text.toList = c :: text ∧ startsName c = true ∧
    text.all continuesName = true ∧ word (.ofList (c :: text)) = .keyword k := by
  cases k <;> exact ⟨_, _, rfl, rfl, rfl, rfl⟩

/-- No symbol goes on with a space. -/
theorem step_symbol {rest : List Char} (hrest : Breaks rest) (s : Symbol) : ∃ c text,
    s.text.toList = c :: text ∧ ∀ pos, step pos c (text ++ rest) =
      .ok (some ⟨.symbol s, pos⟩, pos.right s.text.length, rest) := by
  rcases hrest.eq_nil_or_cons with rfl | ⟨d, left, rfl, hd⟩
  · cases s <;> exact ⟨_, _, rfl, fun _ => rfl⟩
  · cases hd <;> cases s <;> exact ⟨_, _, rfl, fun _ => rfl⟩

/-! ## Printed lexemes -/

/-- A lexeme in front of a separator is scanned alone. -/
theorem Spelled.scans {l : Lexeme} {text rest : List Char} (h : Spelled l text)
    (hrest : Breaks rest) : Scans (text ++ rest) [l] rest := by
  cases h with
  | int h => simpa using h.scans .absent .absent hrest
  | @float whole places power hwhole hplaces hpower hsome =>
    have hfloat : ¬ (places.isEmpty && power.isEmpty) = true := by
      rcases hsome with h | h <;> simp [h]
    simpa only [if_neg hfloat] using hwhole.scans hplaces hpower hrest
  | name hc htext hkeyword =>
    have hscan := Scans.word hc htext hrest
    rwa [word, hkeyword] at hscan
  | keyword k =>
    obtain ⟨c, text, htext, hc, hall, hword⟩ := keyword_word k
    rw [htext, ← hword]
    exact Scans.word hc (List.all_eq_true.mp hall) hrest
  | symbol s =>
    obtain ⟨c, text, htext, hstep⟩ := step_symbol hrest s
    rw [htext]
    exact Scans.token fun pos => ⟨_, hstep pos⟩
  | @string value h =>
    refine Scans.token fun pos => ?_
    obtain ⟨after, hbody⟩ := stringBody_escaped h pos rest (pos.right 1)
    refine ⟨after, ?_⟩
    have hstep := step_quote hbody
    rw [String.ofList_toList] at hstep
    simpa [Js.escape] using hstep

theorem IsSeparator.breaks {separator : List Char} (h : IsSeparator separator)
    (rest : List Char) : Breaks (separator ++ rest) := by
  cases h with
  | mk hc _ =>
    rintro c ⟨⟩
    exact hc

theorem IsSeparator.scans {separator : List Char} (h : IsSeparator separator)
    (rest : List Char) : Scans (separator ++ rest) [] rest := by
  cases h with
  | mk hc hrest => exact (IsGap.space hc hrest).scans rest

theorem Printed.scans {lexemes : List Lexeme} {text : List Char} (h : Printed lexemes text) :
    Scans text lexemes [] := by
  induction h with
  | nil => exact Scans.refl []
  | last h =>
    have hend : Breaks [] := by rintro c ⟨⟩
    simpa using h.scans hend
  | @cons l next others text separator rest h hseparator _ ih =>
    rw [List.append_assoc]
    exact ((h.scans (hseparator.breaks rest)).trans (hseparator.scans rest)).trans ih

end Scan

/-- A printed list of lexemes is scanned as this list, and the end mark behind it. -/
theorem tokenize_printed {lexemes : List Lexeme} {text : List Char}
    (h : Scan.Printed lexemes text) : ∃ tokens, tokenize (.ofList text) = .ok tokens ∧
      tokens.map Token.lexeme = lexemes ++ [.eof] := by
  obtain ⟨after, tokens, hlexemes, hscan⟩ := h.scans .start
  refine ⟨tokens ++ [⟨.eof, after⟩], ?_, by rw [List.map_append, hlexemes]; rfl⟩
  rw [tokenize, String.toList_ofList, hscan, Scan.tokensFrom]
  rfl

/-- A declaration whose value is a power behind a text. -/
def labelledPower : List Lexeme :=
  [.keyword .pencil, .name "größe_1", .symbol .assign, .string "a\t\"b\\", .symbol .plus,
    .float "1.50e-3", .symbol .pow, .int "007"]

/-- The declaration with a comment in it. -/
def labelledPowerText : String :=
  "pencil größe_1 =\n\t// the \"size // of it\r\n \"a\\t\\\"b\\\\\" + 1.50e-3\r** 007"

theorem tokenize_labelledPower : Scan.Printed labelledPower labelledPowerText.toList ∧
    ∃ tokens, tokenize (.ofList labelledPowerText.toList) = .ok tokens ∧
      tokens.map Token.lexeme = labelledPower ++ [.eof] := by
  have hword : Scan.Spelled (.name (.ofList "größe_1".toList)) "größe_1".toList :=
    .name rfl (List.all_eq_true.mp rfl) rfl
  have hwhole : Scan.IsDigits ['1'] := ⟨by simp, by simp⟩
  have hplaces : Scan.IsDigits ['5', '0'] := ⟨by simp, by simp⟩
  have hexponent : Scan.IsDigits ['3'] := ⟨by simp, by simp⟩
  have hnumeral : Scan.Spelled (.float (.ofList "1.50e-3".toList)) "1.50e-3".toList :=
    .float hwhole (.present hplaces) (.present .lower .minus hexponent) (.inl (by simp))
  have hstring : Scan.Spelled (.string "a\t\"b\\") "\"a\\t\\\"b\\\\\"".toList :=
    .string (by simp [Scan.Quotable])
  have hint : Scan.Spelled (.int (.ofList ['0', '0', '7'])) ['0', '0', '7'] :=
    .int ⟨by simp, by simp⟩
  have hspace : Scan.IsSeparator [' '] := .mk .blank .nil
  have hcomment : Scan.IsGap ('/' :: '/' :: " the \"size // of it\r".toList ++ ['\n', ' ']) :=
    .comment (by simp) (.space .blank .nil)
  have hpower := Scan.Printed.cons hnumeral (.mk .ret .nil) <| .cons (.symbol .pow) hspace <|
    .last hint
  have hprinted := Scan.Printed.cons (.keyword .pencil) hspace <| .cons hword hspace <|
    .cons (.symbol .assign) (.mk .newline (.space .tab hcomment)) <| .cons hstring hspace <|
    .cons (.symbol .plus) hspace hpower
  have h : Scan.Printed labelledPower labelledPowerText.toList := by
    simpa [labelledPower, labelledPowerText, Keyword.text, Symbol.text] using hprinted
  exact ⟨h, tokenize_printed h⟩

end Squishc
