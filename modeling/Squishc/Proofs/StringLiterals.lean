import Mathlib.Data.List.Basic
import Squishc.Js.StringText

/-!
# String literals are read as they were meant

Reading the text between the quotes of a string literal, escape by escape, gives the
characters that were written.  A backslash in such a text escapes the character behind
it unless it is escaped itself; so quotes stand behind escaping backslashes only, and
none is left over at the end, where it would take the closing quote.

The text can also be made by nine replacements, one for each character with an escape
and each over the whole result of those before it.  Backslashes are replaced first, and
what is put in later holds no character that is still to be replaced.

Main results:

- Theorem `readBody_escapeChar`: a written character is read back.
- Theorem `Sealed.flatMap_escapeChar`: escaping leaves no quote and no backslash open.
- Theorem `replaceEach_eq_flatMap`: the replacements act on every character by itself.
- Theorem `string_literal_survives`: all of this for every text.
-/

namespace Squishc.Js

/-! ## Reading a literal -/

/-- The value of a hexadecimal digit. -/
def hexDigit? (c : Char) : Option Nat :=
  if '0' ≤ c ∧ c ≤ '9' then some (c.toNat - '0'.toNat)
  else if 'a' ≤ c ∧ c ≤ 'f' then some (c.toNat - 'a'.toNat + 10)
  else if 'A' ≤ c ∧ c ≤ 'F' then some (c.toNat - 'A'.toNat + 10)
  else none

/-- The character whose code is written in hexadecimal digits. -/
def hexChar? (digits : List Char) : Option Char := do
  let values ← digits.mapM hexDigit?
  let code := values.foldl (fun n digit => 16 * n + digit) 0
  if code.isValidChar then some (Char.ofNat code) else none

/-- The character that a backslash and a mark stand for. -/
def marked? : Char → Option Char
  | '\\' => some '\\'
  | '"' => some '"'
  | 'n' => some '\n'
  | 't' => some '\t'
  | 'r' => some '\r'
  | 'f' => some '\x0c'
  | 'v' => some '\x0b'
  | _ => none

/-- Reads a literal from behind its opening quote: its value, and what follows the
closing quote.  A literal does not go over the end of a line. -/
def readBody : List Char → Option (List Char × List Char)
  | [] => none
  | '"' :: rest => some ([], rest)
  | '\n' :: _ => none
  | '\r' :: _ => none
  | '\\' :: 'x' :: a :: b :: rest => do
    let c ← hexChar? [a, b]
    let (value, after) ← readBody rest
    return (c :: value, after)
  | '\\' :: 'u' :: a :: b :: c :: d :: rest => do
    let c ← hexChar? [a, b, c, d]
    let (value, after) ← readBody rest
    return (c :: value, after)
  | '\\' :: mark :: rest => do
    let c ← marked? mark
    let (value, after) ← readBody rest
    return (c :: value, after)
  | ['\\'] => none
  | c :: rest => do
    let (value, after) ← readBody rest
    return (c :: value, after)

/-- The value of the text between two quotes, if the second quote is where the literal
ends. -/
def decode (text : List Char) : Option (List Char) :=
  match readBody (text ++ ['"']) with
  | some (value, []) => some value
  | _ => none

theorem readBody_plain {c : Char} (hback : c ≠ '\\') (hquote : c ≠ '"') (hline : c ≠ '\n')
    (hreturn : c ≠ '\r') (rest : List Char) :
    readBody (c :: rest) = (readBody rest).map fun (value, after) => (c :: value, after) := by
  rw [readBody]
  · cases readBody rest <;> rfl
  all_goals simp_all

theorem readBody_marked {mark c : Char} (hmark : marked? mark = some c) (rest : List Char) :
    readBody ('\\' :: mark :: rest) =
      (readBody rest).map fun (value, after) => (c :: value, after) := by
  rw [readBody, hmark]
  · cases readBody rest <;> rfl
  -- the marks of codes stand for no character by themselves
  · intro _ _ _ hx _
    rw [hx] at hmark
    cases hmark
  · intro _ _ _ _ _ hu _
    rw [hu] at hmark
    cases hmark

/-- A written character is read back. -/
theorem readBody_escapeChar (c : Char) (rest : List Char) :
    readBody (escapeChar c ++ rest) =
      (readBody rest).map fun (value, after) => (c :: value, after) := by
  unfold escapeChar
  split
  case h_8 =>
    have hcode : hexChar? ['0', '0'] = some '\x00' := rfl
    rw [List.cons_append, List.cons_append, List.cons_append, List.cons_append, List.nil_append,
      readBody, hcode]
    cases readBody rest <;> rfl
  case h_9 =>
    have hcode : hexChar? ['0', '0', '7', 'f'] = some '\x7f' := rfl
    rw [List.cons_append, List.cons_append, List.cons_append, List.cons_append, List.cons_append,
      List.cons_append, List.nil_append, readBody, hcode]
    cases readBody rest <;> rfl
  case h_10 hback hquote hline _ hreturn _ _ _ _ =>
    exact readBody_plain hback hquote hline hreturn rest
  all_goals exact readBody_marked rfl rest

theorem readBody_escaped (value rest : List Char) :
    readBody (value.flatMap escapeChar ++ '"' :: rest) = some (value, rest) := by
  induction value with
  | nil => rfl
  | cons c value ih => rw [List.flatMap_cons, List.append_assoc, readBody_escapeChar, ih]; rfl

/-! ## Escaping backslashes -/

/-- Whether a backslash that escapes the next character stands at a place.  It is not
escaped itself. -/
def escapes (text : List Char) : Nat → Bool
  | 0 => text[0]? == some '\\'
  | i + 1 => text[i + 1]? == some '\\' && !escapes text i

/-- A text that can stand between quotes. -/
structure Sealed (text : List Char) : Prop where
  /-- Every quote stands behind an escaping backslash. -/
  quotes : ∀ i, text[i]? = some '"' → ∃ j, i = j + 1 ∧ escapes text j = true
  /-- The last character is no escaping backslash. -/
  last : ∀ i, i + 1 = text.length → escapes text i = false

theorem escapes_append_left (as bs : List Char) {i : Nat} (h : i < as.length) :
    escapes (as ++ bs) i = escapes as i := by
  induction i with
  | zero => rw [escapes, escapes, List.getElem?_append_left h]
  | succ i ih => rw [escapes, escapes, List.getElem?_append_left h, ih (Nat.lt_of_succ_lt h)]

/-- Behind a sealed text, backslashes escape as they would at the beginning. -/
theorem Sealed.escapes_append_right {as : List Char} (h : Sealed as) (bs : List Char) (j : Nat) :
    escapes (as ++ bs) (as.length + j) = escapes bs j := by
  induction j with
  | zero =>
    have hget : (as ++ bs)[as.length]? = bs[0]? := by
      rw [List.getElem?_append_right (Nat.le_refl _), Nat.sub_self]
    rcases hlength : as.length with _ | n
    · rw [hlength] at hget
      rw [Nat.add_zero, escapes, escapes, hget]
    · have hopen : escapes (as ++ bs) n = false := by
        rw [escapes_append_left as bs (by omega), h.last n hlength.symm]
      rw [hlength] at hget
      rw [Nat.add_zero, escapes, escapes, hget, hopen, Bool.not_false, Bool.and_true]
  | succ j ih =>
    rw [← Nat.add_assoc, escapes, escapes, ih, List.getElem?_append_right (by omega)]
    congr 3
    omega

theorem Sealed.append {as bs : List Char} (has : Sealed as) (hbs : Sealed bs) :
    Sealed (as ++ bs) where
  quotes i hi := by
    rcases Nat.lt_or_ge i as.length with hlt | hge
    · rw [List.getElem?_append_left hlt] at hi
      obtain ⟨j, rfl, hj⟩ := has.quotes i hi
      exact ⟨j, rfl, by rwa [escapes_append_left as bs (Nat.lt_of_succ_lt hlt)]⟩
    · rw [List.getElem?_append_right hge] at hi
      obtain ⟨j, hij, hj⟩ := hbs.quotes _ hi
      exact ⟨as.length + j, by omega, by rwa [has.escapes_append_right]⟩
  last i hi := by
    rw [List.length_append] at hi
    rcases Nat.eq_zero_or_pos bs.length with hzero | hpos
    · rw [List.length_eq_zero_iff.mp hzero, List.append_nil]
      exact has.last i (by omega)
    · obtain ⟨j, rfl⟩ := Nat.exists_eq_add_of_le (show as.length ≤ i by omega)
      rw [has.escapes_append_right]
      exact hbs.last j (by omega)

/-- An escape of two characters or more: the backslash is used up by the second. -/
theorem Sealed.escape (mark : Char) {rest : List Char} (h : ∀ c ∈ rest, c ≠ '"' ∧ c ≠ '\\') :
    Sealed ('\\' :: mark :: rest) where
  quotes i hi := by
    match i, hi with
    | 1, _ => exact ⟨0, rfl, rfl⟩
    | i + 2, hi => exact absurd rfl (h '"' (List.mem_of_getElem? hi)).1
  last i hi := by
    match i with
    | 0 => simp at hi
    | 1 => simp [escapes]
    | i + 2 =>
      have hget : rest[i]? ≠ some '\\' := fun hmem => (h _ (List.mem_of_getElem? hmem)).2 rfl
      simp [escapes, hget]

theorem Sealed.plain {c : Char} (hquote : c ≠ '"') (hback : c ≠ '\\') : Sealed [c] where
  quotes i hi := absurd (List.mem_singleton.mp (List.mem_of_getElem? hi)).symm hquote
  last i hi := by
    obtain rfl : i = 0 := by simpa using hi
    simpa [escapes] using hback

theorem Sealed.escapeChar (c : Char) : Sealed (escapeChar c) := by
  unfold Js.escapeChar
  split
  case h_10 hback hquote _ _ _ _ _ _ _ => exact .plain hquote hback
  all_goals exact .escape _ (by simp)

/-- Escaping leaves no quote and no backslash open. -/
theorem Sealed.flatMap_escapeChar (value : List Char) :
    Sealed (value.flatMap Js.escapeChar) := by
  induction value with
  | nil => exact ⟨fun i hi => by simp at hi, fun i hi => by simp at hi⟩
  | cons c value ih => exact (Sealed.escapeChar c).append ih

theorem raw_not_mem_escapeChar (c : Char) :
    '\n' ∉ escapeChar c ∧ '\r' ∉ escapeChar c ∧ '\x00' ∉ escapeChar c := by
  unfold escapeChar
  split
  case h_10 _ _ hline _ hreturn _ _ hnul _ =>
    simp only [List.mem_singleton]
    exact ⟨Ne.symm hline, Ne.symm hreturn, Ne.symm hnul⟩
  all_goals simp

/-! ## Replacements -/

/-- The text with every occurrence of a part replaced, from left to right.  The part is
not empty. -/
def replaceAll (old new : List Char) : List Char → List Char
  | [] => []
  | c :: rest =>
    if old.isPrefixOf (c :: rest) then new ++ replaceAll old new (rest.drop (old.length - 1))
    else c :: replaceAll old new rest
termination_by text => text.length
decreasing_by
  · simp only [List.length_drop, List.length_cons]
    omega
  · simp

/-- The characters with an escape and their escapes, in the order in which they are
replaced. -/
def replacements : List (Char × String) :=
  [('\\', "\\\\"), ('"', "\\\""), ('\n', "\\n"), ('\t', "\\t"), ('\r', "\\r"), ('\x0c', "\\f"),
    ('\x0b', "\\v"), ('\x00', "\\x00"), ('\x7f', "\\u007f")]

/-- Makes some replacements one after another, each over the whole result of those
before it. -/
def replaceEach (table : List (Char × String)) (text : List Char) : List Char :=
  table.foldl (fun text r => replaceAll [r.1] r.2.toList text) text

/-- Replacing one character works on every character by itself. -/
theorem replaceAll_singleton (old : Char) (new text : List Char) :
    replaceAll [old] new text = text.flatMap fun c => if c = old then new else [c] := by
  induction text with
  | nil => rw [replaceAll, List.flatMap_nil]
  | cons c rest ih =>
    rw [replaceAll, List.flatMap_cons, ← ih]
    by_cases h : c = old
    · simp [h]
    · simp [h, Ne.symm h]

theorem replaceEach_eq_foldl (table : List (Char × String)) (text : List Char) :
    replaceEach table text =
      table.foldl
        (fun text r => text.flatMap fun c => if c = r.1 then r.2.toList else [c]) text := by
  simp only [replaceEach, replaceAll_singleton]

/-- Replacements of single characters act on every character by itself. -/
theorem replaceEach_eq_flatMap (table : List (Char × String)) (text : List Char) :
    replaceEach table text = text.flatMap fun c => replaceEach table [c] := by
  induction table generalizing text with
  | nil => simp [replaceEach]
  | cons r table ih =>
    have hstep : ∀ text, replaceEach (r :: table) text =
        replaceEach table (replaceAll [r.1] r.2.toList text) := fun _ => rfl
    simp only [hstep]
    rw [ih, replaceAll_singleton, List.flatMap_assoc]
    refine congrArg (text.flatMap ·) (funext fun c => ?_)
    rw [replaceAll_singleton, List.flatMap_singleton, ← ih]

theorem replaceEach_of_forall_ne {c : Char} {table : List (Char × String)}
    (h : ∀ r ∈ table, c ≠ r.1) : replaceEach table [c] = [c] := by
  induction table with
  | nil => rfl
  | cons r table ih =>
    rw [List.forall_mem_cons] at h
    rw [replaceEach, List.foldl_cons, replaceAll_singleton, List.flatMap_singleton, if_neg h.1]
    exact ih h.2

/-- No replacement changes what an earlier one has put in. -/
theorem replaceEach_singleton (c : Char) : replaceEach replacements [c] = escapeChar c := by
  unfold escapeChar
  split
  case h_10 =>
    refine replaceEach_of_forall_ne ?_
    simp only [replacements, List.forall_mem_cons]
    refine ⟨?_, ?_, ?_, ?_, ?_, ?_, ?_, ?_, ?_, by simp⟩ <;> assumption
  all_goals
    rw [replaceEach_eq_foldl]
    rfl

/-! ## The whole literal -/

/-- An escaped text holds no end of a line and no NUL, its quotes are escaped and its last
backslash is, it is read as the text that was escaped, and it is what the replacements
make of that text. -/
theorem string_literal_survives (value : String) :
    ('\n' ∉ (escape value).toList ∧ '\r' ∉ (escape value).toList ∧
        '\x00' ∉ (escape value).toList) ∧
      Sealed (escape value).toList ∧
      decode (escape value).toList = some value.toList ∧
      replaceEach replacements value.toList = (escape value).toList := by
  have htext : (escape value).toList = value.toList.flatMap escapeChar := String.toList_ofList
  have hraw : ∀ {c}, (∀ d, c ∉ escapeChar d) → c ∉ value.toList.flatMap escapeChar := by
    intro c hc hmem
    obtain ⟨d, -, hd⟩ := List.mem_flatMap.mp hmem
    exact hc d hd
  rw [htext]
  refine ⟨⟨hraw fun d => ?_, hraw fun d => ?_, hraw fun d => ?_⟩, .flatMap_escapeChar _, ?_, ?_⟩
  · exact (raw_not_mem_escapeChar d).1
  · exact (raw_not_mem_escapeChar d).2.1
  · exact (raw_not_mem_escapeChar d).2.2
  · rw [decode, readBody_escaped]
  · rw [replaceEach_eq_flatMap]
    simp only [replaceEach_singleton]

end Squishc.Js
