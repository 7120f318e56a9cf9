import Squishc.Js.Tree
import Squishc.Proofs.NumberLiterals
import Squishc.Proofs.StringLiterals

/-!
# Tokens of JavaScript

A text of JavaScript is cut into identifiers, numerals, string literals and marks.  At
every place the longest mark is taken, so two minus signs in a row are one mark and not
two, and no identifier may follow a numeral directly.

Which characters beyond ASCII belong to identifiers is a matter of tables.  An alphabet
stands for any choice of them.

Main results:

- Theorem `lexStep_shorter`: a step leaves less text than it was given.
- Theorem `Lexes.trans`: texts that are cut one after the other.
- Theorem `Lexes.word`, `Lexes.numeral`, `Lexes.string`, `Lexes.mark`: the tokens.
-/

namespace Squishc.Js.Script

open Number (IsWhole IsUnsigned)
open Scan (IsDigits IsFraction IsExponent Stops)

/-! ## Cutting a text -/

/-- The characters of identifiers: those that may begin one and those that may follow. -/
structure Alphabet where
  starts : Char → Bool
  continues : Char → Bool
  starts_ascii : ∀ c : Char, c.toNat < 128 → starts c = (c.isAlpha || c == '_' || c == '$')
  continues_ascii : ∀ c : Char, c.toNat < 128 →
    continues c = (c.isAlphanum || c == '_' || c == '$')

/-- Whether a text has the form of an identifier. -/
def Alphabet.isIdentifier (A : Alphabet) (text : String) : Bool :=
  match text.toList with
  | [] => false
  | c :: rest => A.starts c && rest.all A.continues

/-- A token. -/
inductive Tok where
  | word (chars : List Char)
  | numeral (chars : List Char)
  /-- A string literal, with its value. -/
  | text (value : List Char)
  | mark (chars : List Char)
deriving DecidableEq, Repr, Inhabited

/-- The marks and the beginnings of comments, from long to short. -/
def marks : List (List Char) :=
  [['>', '>', '>', '='], ['<', '!', '-', '-'],
    ['=', '=', '='], ['!', '=', '='], ['*', '*', '='], ['<', '<', '='], ['>', '>', '='],
    ['>', '>', '>'], ['&', '&', '='], ['|', '|', '='], ['?', '?', '='],
    ['=', '>'], ['=', '='], ['!', '='], ['<', '='], ['>', '='], ['&', '&'], ['|', '|'],
    ['?', '?'], ['?', '.'], ['+', '+'], ['-', '-'], ['+', '='], ['-', '='], ['*', '='],
    ['/', '='], ['%', '='], ['&', '='], ['|', '='], ['^', '='], ['<', '<'], ['>', '>'],
    ['*', '*'], ['/', '/'], ['/', '*'],
    ['\x7b'], ['\x7d'], ['('], [')'], ['['], [']'], [';'], [','], ['<'], ['>'], ['+'], ['-'],
    ['*'], ['/'], ['%'], ['&'], ['|'], ['^'], ['!'], ['~'], ['?'], [':'], ['=']]

/-- The longest mark at the front of a text. -/
def mark? (text : List Char) : Option (List Char) := marks.find? (·.isPrefixOf text)

/-- A blank or the end of a line. -/
def isSpace (c : Char) : Bool :=
  [' ', '\t', '\n', '\r', '\x0b', '\x0c', '\u00a0', '\ufeff', '\u2028', '\u2029'].contains c

/-- The digits in front of a point.  A zero stands alone. -/
def wholePart : List Char → List Char × List Char
  | '0' :: rest => (['0'], rest)
  | text => (text.takeWhile Char.isDigit, text.dropWhile Char.isDigit)

/-- The fraction at the front of a text, and what follows it. -/
def fractionPart : List Char → List Char × List Char
  | '.' :: rest => ('.' :: rest.takeWhile Char.isDigit, rest.dropWhile Char.isDigit)
  | text => ([], text)

/-- The exponent at the front of a text, and what follows it. -/
def exponentPart : List Char → List Char × List Char
  | [] => ([], [])
  | mark :: rest =>
    if (mark == 'e' || mark == 'E') && (Scan.sign rest).2.head?.any Char.isDigit then
      (mark :: (Scan.sign rest).1 ++ (Scan.sign rest).2.takeWhile Char.isDigit,
        (Scan.sign rest).2.dropWhile Char.isDigit)
    else ([], mark :: rest)

/-- The numeral at the front of a text, and what follows it.  No digit and no identifier
may follow directly. -/
def numeral? (A : Alphabet) (text : List Char) : Option (List Char × List Char) :=
  let (whole, rest) := wholePart text
  let (places, rest) := fractionPart rest
  let (power, rest) := exponentPart rest
  if rest.head?.any (fun c => c.isDigit || A.starts c) then none
  else some (whole ++ places ++ power, rest)

/-- One step on a text that is not empty: a token or nothing, and what follows it. -/
def lexStep (A : Alphabet) (c : Char) (rest : List Char) : Option (Option Tok × List Char) :=
  if A.starts c then
    some (some (.word (c :: rest.takeWhile A.continues)), rest.dropWhile A.continues)
  else if isSpace c then some (none, rest)
  else if c.isDigit then
    (numeral? A (c :: rest)).map fun (chars, left) => (some (.numeral chars), left)
  else if c = '"' then (readBody rest).map fun (value, left) => (some (.text value), left)
  else (mark? (c :: rest)).map fun m => (some (.mark m), (c :: rest).drop m.length)

/-! ## Progress -/

theorem length_readBody {text value left : List Char} (h : readBody text = some (value, left)) :
    left.length ≤ text.length := by
  fun_induction readBody text generalizing value left with
  | case1 | case3 | case4 | case8 => cases h
  | case2 rest =>
    cases h
    simp
  | case5 a b rest ih | case6 a b c d rest ih | case7 mark rest _ _ ih =>
    simp only [Option.bind_eq_bind, Option.bind_eq_some_iff, Option.pure_def,
      Option.some.injEq] at h
    obtain ⟨_, _, ⟨value', left'⟩, hrest, h⟩ := h
    cases h
    have := ih hrest
    simp only [List.length_cons]
    omega
  | case9 c rest _ _ _ _ _ _ _ ih =>
    simp only [Option.bind_eq_bind, Option.bind_eq_some_iff, Option.pure_def,
      Option.some.injEq] at h
    obtain ⟨⟨value', left'⟩, hrest, h⟩ := h
    cases h
    have := ih hrest
    simp only [List.length_cons]
    omega

theorem length_dropWhile_le (p : Char → Bool) (text : List Char) :
    (text.dropWhile p).length ≤ text.length := (List.dropWhile_sublist p).length_le

theorem length_sign (text : List Char) : (Scan.sign text).2.length ≤ text.length := by
  unfold Scan.sign
  split <;> simp

theorem length_wholePart {c : Char} (hc : c.isDigit = true) (rest : List Char) :
    (wholePart (c :: rest)).2.length ≤ rest.length := by
  unfold wholePart
  split
  · rename_i heq
    cases heq
    exact Nat.le_refl _
  · rw [List.dropWhile_cons_of_pos hc]
    exact length_dropWhile_le _ rest

theorem length_fractionPart (text : List Char) : (fractionPart text).2.length ≤ text.length := by
  unfold fractionPart
  split
  · exact Nat.le_succ_of_le (length_dropWhile_le _ _)
  · exact Nat.le_refl _

theorem length_exponentPart (text : List Char) : (exponentPart text).2.length ≤ text.length := by
  unfold exponentPart
  split
  · exact Nat.le_refl _
  · split
    · exact Nat.le_succ_of_le ((length_dropWhile_le _ _).trans (length_sign _))
    · exact Nat.le_refl _

theorem length_numeral? {A : Alphabet} {c : Char} {rest chars left : List Char}
    (hc : c.isDigit = true) (h : numeral? A (c :: rest) = some (chars, left)) :
    left.length ≤ rest.length := by
  have hwhole := length_wholePart hc rest
  have hplaces := length_fractionPart (wholePart (c :: rest)).2
  have hpower := length_exponentPart (fractionPart (wholePart (c :: rest)).2).2
  simp only [numeral?] at h
  split at h
  · cases h
  · cases h
    omega

theorem length_pos_of_mem_marks {m : List Char} (h : m ∈ marks) : 0 < m.length := by
  have hall : marks.all (fun m => decide (0 < m.length)) = true := rfl
  exact of_decide_eq_true (List.all_eq_true.mp hall m h)

/-- A step leaves less text than it was given. -/
theorem lexStep_shorter {A : Alphabet} {c : Char} {rest left : List Char} {found : Option Tok}
    (h : lexStep A c rest = some (found, left)) : left.length < (c :: rest).length := by
  rw [List.length_cons, Nat.lt_succ_iff]
  unfold lexStep at h
  split at h
  · cases h
    exact length_dropWhile_le _ _
  split at h
  · cases h
    exact Nat.le_refl _
  split at h
  · next hdigit =>
    obtain ⟨⟨chars, left'⟩, hnumeral, heq⟩ := Option.map_eq_some_iff.mp h
    cases heq
    exact length_numeral? hdigit hnumeral
  split at h
  · obtain ⟨⟨value, left'⟩, hbody, heq⟩ := Option.map_eq_some_iff.mp h
    cases heq
    exact length_readBody hbody
  · obtain ⟨m, hmark, heq⟩ := Option.map_eq_some_iff.mp h
    cases heq
    have hpos := length_pos_of_mem_marks (List.mem_of_find?_eq_some hmark)
    rw [List.length_drop, List.length_cons]
    omega

/-- The tokens of a text. -/
def lex (A : Alphabet) : List Char → Option (List Tok)
  | [] => some []
  | c :: rest =>
    match _h : lexStep A c rest with
    | none => none
    | some (found, left) => (lex A left).map (found.toList ++ ·)
termination_by text => text.length
decreasing_by exact lexStep_shorter _h

theorem lex_cons {A : Alphabet} {c : Char} {rest left : List Char} {found : Option Tok}
    (h : lexStep A c rest = some (found, left)) :
    lex A (c :: rest) = (lex A left).map (found.toList ++ ·) := by
  rw [lex]
  split
  · rename_i hstep
    rw [h] at hstep
    cases hstep
  · rename_i hstep
    rw [h] at hstep
    cases hstep
    rfl

/-- The front of a text is cut into some tokens and the rest is left. -/
def Lexes (A : Alphabet) (text : List Char) (toks : List Tok) (rest : List Char) : Prop :=
  lex A text = (lex A rest).map (toks ++ ·)

namespace Lexes

variable {A : Alphabet} {text rest left : List Char} {toks others : List Tok} {c : Char}

theorem refl (A : Alphabet) (text : List Char) : Lexes A text [] text := by
  rw [Lexes]
  simp

theorem trans (h : Lexes A text toks rest) (h' : Lexes A rest others left) :
    Lexes A text (toks ++ others) left := by
  rw [Lexes, h, h', Option.map_map]
  congr 1
  funext later
  exact (List.append_assoc toks others later).symm

theorem token {t : Tok} (h : lexStep A c rest = some (some t, left)) :
    Lexes A (c :: rest) [t] left := lex_cons h

end Lexes

/-! ## Where a token ends -/

/-- A text that is empty or begins with a character that ends every token in front of it. -/
def Delimited (rest : List Char) : Prop :=
  ∀ c ∈ rest.head?, c ∈ [' ', '(', ')', '[', ']', ',']

theorem Delimited.nil : Delimited [] := by
  rintro c ⟨⟩

theorem Delimited.cons {c : Char} (h : c ∈ [' ', '(', ')', '[', ']', ',']) (rest : List Char) :
    Delimited (c :: rest) := by
  rintro _ ⟨⟩
  exact h

/-- What holds of no delimiter does not hold of the next character. -/
theorem Delimited.stops {rest : List Char} (h : Delimited rest) {p : Char → Bool}
    (hp : ∀ c ∈ [' ', '(', ')', '[', ']', ','], p c = false) : Stops p rest :=
  fun c hc => hp c (h c hc)

theorem Delimited.stops_continues {rest : List Char} (h : Delimited rest) (A : Alphabet) :
    Stops A.continues rest := by
  refine h.stops fun c hc => ?_
  have hascii : ∀ c ∈ [' ', '(', ')', '[', ']', ','],
      c.toNat < 128 ∧ (c.isAlphanum || c == '_' || c == '$') = false :=
    Num.forall_mem_of_all rfl
  rw [A.continues_ascii c (hascii c hc).1, (hascii c hc).2]

theorem Delimited.stops_starts {rest : List Char} (h : Delimited rest) (A : Alphabet) :
    Stops (fun c => c.isDigit || A.starts c) rest := by
  refine h.stops fun c hc => ?_
  have hascii : ∀ c ∈ [' ', '(', ')', '[', ']', ','],
      c.toNat < 128 ∧ c.isDigit = false ∧ (c.isAlpha || c == '_' || c == '$') = false :=
    Num.forall_mem_of_all rfl
  obtain ⟨hlt, hdigit, hletter⟩ := hascii c hc
  rw [A.starts_ascii c hlt, hdigit, hletter, Bool.or_false]

theorem wholePart_append {whole rest : List Char} (h : IsWhole whole)
    (hrest : Stops Char.isDigit rest) : wholePart (whole ++ rest) = (whole, rest) := by
  cases h with
  | zero => rfl
  | @digits c tail hzero hdigits =>
    unfold wholePart
    split
    · rename_i heq
      cases heq
      exact absurd rfl hzero
    · rw [hrest.takeWhile_append hdigits.2, hrest.dropWhile_append hdigits.2]

theorem fractionPart_append {places rest : List Char} (h : IsFraction places)
    (hdigits : Stops Char.isDigit rest) (hpoint : Stops (· == '.') rest) :
    fractionPart (places ++ rest) = (places, rest) := by
  cases h with
  | absent =>
    rw [List.nil_append]
    unfold fractionPart
    split
    · exact absurd (hpoint '.' rfl) (by decide)
    · rfl
  | @present digits h =>
    rw [List.cons_append, fractionPart, hdigits.takeWhile_append h.2,
      hdigits.dropWhile_append h.2]

theorem exponentPart_append {power rest : List Char} (h : IsExponent power)
    (hrest : Delimited rest) : exponentPart (power ++ rest) = (power, rest) := by
  cases h with
  | absent =>
    have hmark : Stops (fun c => c == 'e' || c == 'E') rest :=
      hrest.stops (Num.forall_mem_of_all rfl)
    cases rest with
    | nil => rfl
    | cons c left => simp [exponentPart, hmark c rfl]
  | @present mark sign digits hmark hsign hdigits =>
    have hstops : Stops Char.isDigit rest := hrest.stops (Num.forall_mem_of_all rfl)
    obtain ⟨d, ds, rfl⟩ := List.exists_cons_of_ne_nil hdigits.1
    have hd : d.isDigit = true := hdigits.2 d List.mem_cons_self
    have hmark' : (mark == 'e' || mark == 'E') = true := by cases hmark <;> rfl
    rw [List.append_assoc, List.cons_append, exponentPart, Scan.sign_spelled hsign hdigits]
    dsimp only
    rw [if_pos, hstops.takeWhile_append hdigits.2, hstops.dropWhile_append hdigits.2]
    rw [hmark', Bool.true_and]
    exact hd

/-- A numeral in front of a delimiter is taken whole. -/
theorem numeral?_append (A : Alphabet) {text rest : List Char} (h : IsUnsigned text)
    (hrest : Delimited rest) : numeral? A (text ++ rest) = some (text, rest) := by
  obtain ⟨hwhole, hplaces, hpower⟩ := h
  rename_i whole places power
  have hpowerStops : ∀ {p : Char → Bool}, p 'e' = false → p 'E' = false → Stops p rest →
      Stops p (power ++ rest) := by
    intro p hlower hupper hstops
    cases hpower with
    | absent => exact hstops
    | present hmark =>
      rintro c ⟨⟩
      cases hmark
      · exact hlower
      · exact hupper
  have hdigits : Stops Char.isDigit (power ++ rest) :=
    hpowerStops rfl rfl (hrest.stops (Num.forall_mem_of_all rfl))
  have hpoint : Stops (· == '.') (power ++ rest) :=
    hpowerStops rfl rfl (hrest.stops (Num.forall_mem_of_all rfl))
  have hplacesStops : Stops Char.isDigit (places ++ (power ++ rest)) := by
    cases hplaces with
    | absent => exact hdigits
    | present _ =>
      rintro c ⟨⟩
      rfl
  have hnext : rest.head?.any (fun c => c.isDigit || A.starts c) = false := by
    rw [Option.any_eq_false]
    exact hrest.stops_starts A
  rw [List.append_assoc, List.append_assoc, numeral?, wholePart_append hwhole hplacesStops]
  dsimp only
  rw [fractionPart_append hplaces hdigits hpoint]
  dsimp only
  rw [exponentPart_append hpower hrest]
  dsimp only
  rw [hnext]
  rfl

/-! ## The tokens -/

theorem mem_digits_of_isDigit {c : Char} (h : c.isDigit = true) :
    c ∈ ['0', '1', '2', '3', '4', '5', '6', '7', '8', '9'] := by
  simp only [Char.isDigit, Bool.and_eq_true, decide_eq_true_eq, ge_iff_le,
    UInt32.le_iff_toNat_le] at h
  have hbounds : 48 ≤ c.toNat ∧ c.toNat ≤ 57 := h
  rw [← Char.ofNat_toNat c]
  generalize c.toNat = n at hbounds
  obtain ⟨hlow, hhigh⟩ := hbounds
  interval_cases n <;> decide

/-- Whether a character begins neither an identifier, a numeral nor a string literal and is
no blank. -/
def startsMark (c : Char) : Bool :=
  decide (c.toNat < 128) && !(c.isAlphanum || c == '_' || c == '$' || isSpace c || c == '"')

namespace Lexes

variable {A : Alphabet} {c : Char} {rest : List Char}

theorem blank {toks : List Tok} {left : List Char} (hrest : Lexes A rest toks left) :
    Lexes A (' ' :: rest) toks left := by
  have hstep : lexStep A ' ' rest = some (none, rest) := by
    rw [lexStep, A.starts_ascii ' ' (by decide)]
    rfl
  have hblank : Lexes A (' ' :: rest) [] rest := lex_cons hstep
  exact hblank.trans hrest

theorem word {chars : List Char} (hc : A.starts c = true)
    (hchars : ∀ d ∈ chars, A.continues d = true) (hrest : Stops A.continues rest) :
    Lexes A (c :: chars ++ rest) [.word (c :: chars)] rest := by
  refine token ?_
  rw [lexStep, if_pos hc]
  change some (some (Tok.word (c :: (chars ++ rest).takeWhile A.continues)),
    (chars ++ rest).dropWhile A.continues) = _
  rw [hrest.takeWhile_append hchars, hrest.dropWhile_append hchars]

theorem numeral {text : List Char} (h : IsUnsigned text) (hrest : Delimited rest) :
    Lexes A (text ++ rest) [.numeral text] rest := by
  have hnumeral := numeral?_append A h hrest
  obtain ⟨d, ds, rfl, hd⟩ := h.exists_digit
  have hclass : ∀ c ∈ ['0', '1', '2', '3', '4', '5', '6', '7', '8', '9'],
      c.toNat < 128 ∧ (c.isAlpha || c == '_' || c == '$') = false ∧ isSpace c = false :=
    Num.forall_mem_of_all rfl
  obtain ⟨hlt, hletter, hspace⟩ := hclass d (mem_digits_of_isDigit hd)
  refine token ?_
  rw [lexStep, A.starts_ascii d hlt, hletter, hspace, hd]
  change (numeral? A (d :: ds ++ rest)).map _ = _
  rw [hnumeral]
  rfl

theorem string (value rest : List Char) :
    Lexes A ('"' :: (value.flatMap escapeChar ++ '"' :: rest)) [.text value] rest := by
  refine token ?_
  rw [lexStep, A.starts_ascii '"' (by decide)]
  change (readBody (value.flatMap escapeChar ++ '"' :: rest)).map _ = _
  rw [readBody_escaped]
  rfl

theorem mark {chars : List Char} (hc : startsMark c = true)
    (h : mark? (c :: chars ++ rest) = some (c :: chars)) :
    Lexes A (c :: chars ++ rest) [.mark (c :: chars)] rest := by
  simp only [startsMark, Char.isAlphanum, Bool.and_eq_true, decide_eq_true_eq, Bool.not_eq_true',
    Bool.or_eq_false_iff] at hc
  obtain ⟨hlt, ⟨⟨⟨⟨hletter, hdigit⟩, hline⟩, hdollar⟩, hspace⟩, hquote⟩ := hc
  have hstarts : A.starts c = false := by
    rw [A.starts_ascii c hlt, hletter, hline, hdollar]
    rfl
  refine token ?_
  rw [lexStep, hstarts, hspace, hdigit, if_neg Bool.false_ne_true, if_neg Bool.false_ne_true,
    if_neg Bool.false_ne_true, if_neg (by simpa using hquote)]
  change (mark? (c :: chars ++ rest)).map _ = _
  rw [h]
  exact congrArg (fun left => some (some (Tok.mark (c :: chars)), left)) (List.drop_left ..)

theorem punct {toks : List Tok} {left : List Char} (hc : startsMark c = true)
    (h : mark? (c :: rest) = some [c]) (hrest : Lexes A rest toks left) :
    Lexes A (c :: rest) (.mark [c] :: toks) left := by
  have hmark : Lexes A (c :: [] ++ rest) [.mark (c :: [])] rest := mark hc h
  exact hmark.trans hrest

end Lexes

end Squishc.Js.Script
