import Squishc.Text.Letter
import Squishc.Token

/-!
# Scanning

Cuts a text into tokens.  One step looks at the front of the text and either
skips blanks or a comment, takes one token, or reports a fault.  Every step
takes at least one character, so scanning ends.

Main results:

- Theorem `step_shorter`: a step leaves less text than it was given.
-/

namespace Squishc

/-- Why a text is not a list of tokens. -/
inductive ScanCause where
  | malformedNumber
  | invalidExponent
  | unterminatedString
  | unfinishedEscape
  | invalidEscape (c : Char)
  | unexpected (c : Char)
deriving DecidableEq, Repr, Inhabited

/-- The message of a cause. -/
def ScanCause.message : ScanCause → String
  | malformedNumber => "malformed number"
  | invalidExponent => "invalid float exponent"
  | unterminatedString => "unterminated string literal"
  | unfinishedEscape => "unexpected end of string in escape"
  | invalidEscape c => "invalid escape: \\" ++ c.toString
  | unexpected c => "unexpected character: " ++ Text.quoted c.toString

/-- A lexical fault and its place. -/
structure ScanFault where
  cause : ScanCause
  pos : Pos
deriving DecidableEq, Repr, Inhabited

/-- What the user sees of a lexical fault. -/
def ScanFault.toDiagnostic (f : ScanFault) : Diagnostic :=
  ⟨.lexical, f.cause.message, f.pos⟩

namespace Scan

/-- A character that may begin a name. -/
def startsName (c : Char) : Bool :=
  Text.isLetter c || c == '_'

/-- A character that may stand inside a name. -/
def continuesName (c : Char) : Bool :=
  startsName c || c.isDigit

/-- A blank within a line. -/
def isBlank (c : Char) : Bool :=
  c == ' ' || c == '\t' || c == '\r'

/-! ## Numbers -/

/-- The fraction at the front of a text, and what follows it.  A point counts as
one only before a digit; before a letter it belongs to what follows, and
anything else after it is a fault. -/
def fraction (fault : Pos) : List Char → Except ScanFault (List Char × List Char)
  | '.' :: c :: rest =>
    if c.isDigit then
      .ok ('.' :: (c :: rest).takeWhile Char.isDigit, (c :: rest).dropWhile Char.isDigit)
    else if startsName c then
      .ok ([], '.' :: c :: rest)
    else
      .error ⟨.malformedNumber, fault⟩
  | ['.'] => .error ⟨.malformedNumber, fault⟩
  | rest => .ok ([], rest)

/-- The sign at the front of a text, and what follows it. -/
def sign : List Char → List Char × List Char
  | '+' :: rest => (['+'], rest)
  | '-' :: rest => (['-'], rest)
  | rest => ([], rest)

/-- The exponent at the front of a text, and what follows it. -/
def exponent (fault : Pos) : List Char → Except ScanFault (List Char × List Char)
  | [] => .ok ([], [])
  | mark :: rest =>
    if mark == 'e' || mark == 'E' then
      let (signs, rest) := sign rest
      let digits := rest.takeWhile Char.isDigit
      if digits.isEmpty then .error ⟨.invalidExponent, fault⟩
      else .ok (mark :: signs ++ digits, rest.dropWhile Char.isDigit)
    else .ok ([], mark :: rest)

/-- The numeral at the front of a text: its lexeme, its length and what follows
it. -/
def number (pos : Pos) (text : List Char) : Except ScanFault (Lexeme × Nat × List Char) :=
  let whole := text.takeWhile Char.isDigit
  match fraction (pos.right (whole.length + 1)) (text.dropWhile Char.isDigit) with
  | .error f => .error f
  | .ok (places, rest) =>
    match exponent pos rest with
    | .error f => .error f
    | .ok (power, rest) =>
      let numeral := whole ++ places ++ power
      let lexeme :=
        if places.isEmpty && power.isEmpty then Lexeme.int (String.ofList numeral)
        else Lexeme.float (String.ofList numeral)
      .ok (lexeme, numeral.length, rest)

/-! ## Strings -/

/-- The character that an escape stands for. -/
def unescape? : Char → Option Char
  | 'n' => some '\n'
  | 'r' => some '\r'
  | 't' => some '\t'
  | '\\' => some '\\'
  | '"' => some '"'
  | '\'' => some '\''
  | _ => none

/-- The text after an opening quote: the characters that the literal stands for,
the place after the closing quote and what follows it.  The literal began at
`start`. -/
def stringBody (start : Pos) : Pos → List Char → Except ScanFault (List Char × Pos × List Char)
  | _, [] => .error ⟨.unterminatedString, start⟩
  | pos, '"' :: rest => .ok ([], pos.right 1, rest)
  | _, '\n' :: _ => .error ⟨.unterminatedString, start⟩
  | pos, ['\\'] => .error ⟨.unfinishedEscape, pos⟩
  | pos, '\\' :: c :: rest =>
    match unescape? c with
    | none => .error ⟨.invalidEscape c, pos⟩
    | some v =>
      match stringBody start (pos.right 2) rest with
      | .error f => .error f
      | .ok (value, after, rest) => .ok (v :: value, after, rest)
  | pos, c :: rest =>
    match stringBody start (pos.right 1) rest with
    | .error f => .error f
    | .ok (value, after, rest) => .ok (c :: value, after, rest)

/-! ## Words and symbols -/

/-- The lexeme of a word. -/
def word (text : String) : Lexeme :=
  match Keyword.ofText? text with
  | some k => .keyword k
  | none => .name text

/-- The symbol at the front of a text, and what follows it.  Symbols of two
characters come before those of one. -/
def symbol? : List Char → Option (Symbol × List Char)
  | '*' :: '*' :: rest => some (.pow, rest)
  | '<' :: '=' :: rest => some (.le, rest)
  | '>' :: '=' :: rest => some (.ge, rest)
  | '=' :: '=' :: rest => some (.eq, rest)
  | '!' :: '=' :: rest => some (.ne, rest)
  | '+' :: rest => some (.plus, rest)
  | '-' :: rest => some (.minus, rest)
  | '*' :: rest => some (.star, rest)
  | '/' :: rest => some (.slash, rest)
  | '%' :: rest => some (.percent, rest)
  | '!' :: rest => some (.bang, rest)
  | '<' :: rest => some (.lt, rest)
  | '>' :: rest => some (.gt, rest)
  | '=' :: rest => some (.assign, rest)
  | '(' :: rest => some (.openParen, rest)
  | ')' :: rest => some (.closeParen, rest)
  | '[' :: rest => some (.openBracket, rest)
  | ']' :: rest => some (.closeBracket, rest)
  | ',' :: rest => some (.comma, rest)
  | ':' :: rest => some (.colon, rest)
  | ';' :: rest => some (.semicolon, rest)
  | '.' :: rest => some (.dot, rest)
  | _ => none

/-! ## Steps -/

/-- What one step finds: a token or nothing, the place after it and what
follows. -/
abbrev Found := Option Token × Pos × List Char

/-- One step on a text that is not empty.  A comment runs to the end of its line
and leaves the place where it began. -/
def step (pos : Pos) (c : Char) (rest : List Char) : Except ScanFault Found :=
  if c == '\n' then .ok (none, pos.nextLine, rest)
  else if isBlank c then .ok (none, pos.right 1, rest)
  else if c == '/' && rest.head? == some '/' then
    .ok (none, pos, rest.dropWhile (· != '\n'))
  else if c.isDigit then
    match number pos (c :: rest) with
    | .error f => .error f
    | .ok (lexeme, length, rest) => .ok (some ⟨lexeme, pos⟩, pos.right length, rest)
  else if c == '"' then
    match stringBody pos (pos.right 1) rest with
    | .error f => .error f
    | .ok (value, after, rest) => .ok (some ⟨.string (String.ofList value), pos⟩, after, rest)
  else if startsName c then
    let text := c :: rest.takeWhile continuesName
    .ok (some ⟨word (String.ofList text), pos⟩, pos.right text.length,
      rest.dropWhile continuesName)
  else
    match symbol? (c :: rest) with
    | some (mark, rest) => .ok (some ⟨.symbol mark, pos⟩, pos.right mark.text.length, rest)
    | none => .error ⟨.unexpected c, pos⟩

/-! ## Progress -/

theorem length_dropWhile_le {α : Type} (p : α → Bool) (xs : List α) :
    (xs.dropWhile p).length ≤ xs.length :=
  (List.dropWhile_suffix p).length_le

theorem fraction_length {fault : Pos} {text taken rest : List Char}
    (h : fraction fault text = .ok (taken, rest)) : rest.length ≤ text.length := by
  unfold fraction at h
  split at h
  · rename_i c tail
    have hle := length_dropWhile_le Char.isDigit (c :: tail)
    split at h
    · simp only [Except.ok.injEq, Prod.mk.injEq] at h
      rw [← h.2]
      simp only [List.length_cons] at hle ⊢
      omega
    · split at h
      · simp only [Except.ok.injEq, Prod.mk.injEq] at h
        exact Nat.le_of_eq (congrArg List.length h.2.symm)
      · cases h
  · cases h
  · simp only [Except.ok.injEq, Prod.mk.injEq] at h
    exact Nat.le_of_eq (congrArg List.length h.2.symm)

theorem sign_length (text : List Char) : (sign text).2.length ≤ text.length := by
  unfold sign
  split <;> simp

theorem exponent_length {fault : Pos} {text taken rest : List Char}
    (h : exponent fault text = .ok (taken, rest)) : rest.length ≤ text.length := by
  unfold exponent at h
  split at h
  · simp only [Except.ok.injEq, Prod.mk.injEq] at h
    exact Nat.le_of_eq (congrArg List.length h.2.symm)
  · rename_i mark tail
    have hsign := sign_length tail
    split at h
    · simp only at h
      split at h
      · cases h
      · simp only [Except.ok.injEq, Prod.mk.injEq] at h
        have hle := length_dropWhile_le Char.isDigit (sign tail).2
        rw [← h.2]
        simp only [List.length_cons]
        omega
    · simp only [Except.ok.injEq, Prod.mk.injEq] at h
      exact Nat.le_of_eq (congrArg List.length h.2.symm)

theorem number_shorter {pos : Pos} {c : Char} {text rest : List Char} {l : Lexeme} {n : Nat}
    (hc : c.isDigit = true) (h : number pos (c :: text) = .ok (l, n, rest)) :
    rest.length ≤ text.length := by
  unfold number at h
  simp only at h
  split at h
  · cases h
  · rename_i hf
    split at h
    · cases h
    · rename_i he
      simp only [Except.ok.injEq, Prod.mk.injEq] at h
      have h1 := fraction_length hf
      have h2 := exponent_length he
      have h3 := length_dropWhile_le Char.isDigit text
      rw [List.dropWhile_cons_of_pos hc] at h1
      rw [← h.2.2]
      omega

theorem stringBody_length {start pos after : Pos} {text value rest : List Char}
    (h : stringBody start pos text = .ok (value, after, rest)) :
    rest.length ≤ text.length := by
  fun_induction stringBody start pos text generalizing value after rest with
  | case1 | case3 | case4 | case5 | case6 | case8 => cases h
  | case2 p tail =>
    cases h
    simp
  | case7 p c tail v hc value' after' rest' hrec ih =>
    cases h
    have := ih hrec
    simp only [List.length_cons]
    omega
  | case9 p c tail hq hn he hb value' after' rest' hrec ih =>
    cases h
    have := ih hrec
    simp only [List.length_cons]
    omega

theorem symbol?_shorter {text rest : List Char} {mark : Symbol}
    (h : symbol? text = some (mark, rest)) : rest.length < text.length := by
  unfold symbol? at h
  split at h <;> simp only [Option.some.injEq, Prod.mk.injEq, reduceCtorEq] at h <;>
    (rw [← h.2]; simp only [List.length_cons]; omega)

/-- A step leaves less text than it was given. -/
theorem step_shorter {pos : Pos} {c : Char} {text : List Char} {found : Found}
    (h : step pos c text = .ok found) : found.2.2.length ≤ text.length := by
  unfold step at h
  split at h
  · cases h
    exact Nat.le_refl _
  split at h
  · cases h
    exact Nat.le_refl _
  split at h
  · cases h
    exact length_dropWhile_le _ _
  split at h
  · rename_i hd
    split at h
    · cases h
    · rename_i hn
      cases h
      exact number_shorter hd hn
  split at h
  · split at h
    · cases h
    · rename_i hs
      cases h
      exact stringBody_length hs
  split at h
  · cases h
    exact length_dropWhile_le _ _
  split at h
  · rename_i hs
    cases h
    have := symbol?_shorter hs
    simp only [List.length_cons] at this
    exact Nat.le_of_lt_succ this
  · cases h

/-! ## The whole text -/

/-- The tokens of a text that begins at the given place. -/
def tokensFrom (pos : Pos) (text : List Char) : Except ScanFault (List Token) :=
  match text with
  | [] => .ok [⟨.eof, pos⟩]
  | c :: rest =>
    match _h : step pos c rest with
    | .error f => .error f
    | .ok (found, after, left) =>
      match tokensFrom after left with
      | .error f => .error f
      | .ok tokens => .ok (found.toList ++ tokens)
termination_by text.length
decreasing_by
  have := step_shorter _h
  simp only [List.length_cons]
  exact Nat.lt_succ_of_le this

end Scan

/-- The tokens of a source text, the last of which marks its end. -/
def tokenize (source : String) : Except ScanFault (List Token) :=
  Scan.tokensFrom .start source.toList

end Squishc
