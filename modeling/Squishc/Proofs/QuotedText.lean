import Mathlib.Data.Nat.Digits.Defs
import Mathlib.Tactic.SplitIfs
import Mathlib.Tactic.NormNum
import Squishc.Text.Quoted

/-!
# Reading quoted text

Quoted text can be read again: behind an opening quote each character is read off by
itself, whatever comes behind it, until the closing quote.  So where a quoted text ends
can be told, and no two texts are quoted alike.

Main results:

- Theorem `readChar_quoteChar`: a quoted character is read back.
- Theorem `quoted_append_inj`: quoted text is a code without common beginnings.
- Theorem `newline_not_mem_quoted`: quoted text stands on one line.
-/

namespace Squishc.Text

/-! ## Hexadecimal digits -/

/-- The value of a hexadecimal digit. -/
def hexDigit (c : Char) : Nat :=
  if c.isDigit then c.toNat - '0'.toNat else c.toNat - 'a'.toNat + 10

/-- The value of hexadecimal digits. -/
def hexValue (digits : List Char) : Nat := digits.foldl (fun n c => 16 * n + hexDigit c) 0

theorem hexDigit_digitChar : ∀ n < 16, hexDigit n.digitChar = n := by decide

theorem hexValue_append_singleton (digits : List Char) (c : Char) :
    hexValue (digits ++ [c]) = 16 * hexValue digits + hexDigit c := by
  rw [hexValue, List.foldl_append]
  rfl

theorem hexValue_toDigits (n : Nat) : hexValue (Nat.toDigits 16 n) = n := by
  induction n using Nat.strong_induction_on with
  | _ n ih =>
    rcases Nat.lt_or_ge n 16 with h | h
    · rw [Nat.toDigits_of_lt_base h]
      simpa [hexValue] using hexDigit_digitChar n h
    · rw [Nat.toDigits_of_base_le (by norm_num) h, hexValue_append_singleton,
        ih (n / 16) (by omega), hexDigit_digitChar _ (by omega)]
      omega

theorem hexValue_zeros (n : Nat) (digits : List Char) :
    hexValue (List.replicate n '0' ++ digits) = hexValue digits := by
  induction n with
  | zero => rfl
  | succ n ih =>
    rw [List.replicate_succ, List.cons_append, ← ih]
    rfl

theorem hexValue_hexDigits (width n : Nat) : hexValue (hexDigits width n) = n := by
  rw [hexDigits, hexValue_zeros, hexValue_toDigits]

theorem length_hexDigits {width n : Nat} (hwidth : 0 < width) (h : n < 16 ^ width) :
    (hexDigits width n).length = width := by
  have hle := (Nat.length_toDigits_le_iff (by norm_num) hwidth).mpr h
  simp only [hexDigits, List.length_append, List.length_replicate]
  omega

theorem mem_toDigits_sixteen {n : Nat} {c : Char} (h : c ∈ Nat.toDigits 16 n) :
    ∃ d < 16, c = Nat.digitChar d := by
  induction n using Nat.strong_induction_on with
  | _ n ih =>
    rcases Nat.lt_or_ge n 16 with hn | hn
    · rw [Nat.toDigits_of_lt_base hn, List.mem_singleton] at h
      exact ⟨n, hn, h⟩
    · rw [Nat.toDigits_of_base_le (by norm_num) hn, List.mem_append, List.mem_singleton] at h
      rcases h with h | h
      · exact ih (n / 16) (by omega) h
      · exact ⟨n % 16, by omega, h⟩

theorem newline_not_mem_hexDigits (width n : Nat) : '\n' ∉ hexDigits width n := by
  intro h
  rw [hexDigits, List.mem_append] at h
  rcases h with h | h
  · exact absurd (List.eq_of_mem_replicate h) (by decide)
  · obtain ⟨d, hd, hc⟩ := mem_toDigits_sixteen h
    revert d
    decide

/-! ## Reading a character -/

/-- Reads hexadecimal digits of the given width as a character. -/
def readHex (width : Nat) (text : List Char) : Char × List Char :=
  (Char.ofNat (hexValue (text.take width)), text.drop width)

/-- Reads one character of quoted text. -/
def readChar : List Char → Option (Char × List Char)
  | [] => none
  | '\\' :: 'n' :: rest => some ('\n', rest)
  | '\\' :: 'r' :: rest => some ('\r', rest)
  | '\\' :: 't' :: rest => some ('\t', rest)
  | '\\' :: 'x' :: rest => some (readHex 2 rest)
  | '\\' :: 'u' :: rest => some (readHex 4 rest)
  | '\\' :: 'U' :: rest => some (readHex 8 rest)
  | '\\' :: c :: rest => some (c, rest)
  | c :: rest => some (c, rest)

theorem readHex_hexDigits {width : Nat} {c : Char} (hwidth : 0 < width) (h : c.toNat < 16 ^ width)
    (rest : List Char) : readHex width (hexDigits width c.toNat ++ rest) = (c, rest) := by
  have hlength := length_hexDigits hwidth h
  rw [readHex, List.take_left' hlength, List.drop_left' hlength, hexValue_hexDigits,
    Char.ofNat_toNat]

/-- Quotes stand between single or double quotation marks. -/
def IsMark (mark : Char) : Prop := mark = '\'' ∨ mark = '"'

theorem isMark_quoteMark (text : List Char) : IsMark (quoteMark text) := by
  rw [quoteMark]
  split
  · exact .inr rfl
  · exact .inl rfl

theorem readChar_plain {c : Char} (h : c ≠ '\\') (rest : List Char) :
    readChar (c :: rest) = some (c, rest) := by
  unfold readChar
  split <;> simp_all

/-- A quoted character is read back. -/
theorem readChar_quoteChar {mark : Char} (hmark : IsMark mark) (c : Char) (rest : List Char) :
    readChar (quoteChar mark c ++ rest) = some (c, rest) := by
  have hvalid : c.toNat < 16 ^ 8 := by
    have hc := c.valid
    simp only [UInt32.isValidChar, Nat.isValidChar] at hc
    simp only [Char.toNat]
    omega
  rw [quoteChar]
  split_ifs with hquote hnewline hreturn htab hprintable hbyte hword
  · simp only [Bool.or_eq_true, decide_eq_true_eq] at hquote
    rcases hquote with rfl | rfl
    · rcases hmark with rfl | rfl <;> rfl
    · rfl
  · subst hnewline
    rfl
  · subst hreturn
    rfl
  · subst htab
    rfl
  · exact readChar_plain (by simp_all) rest
  · exact congrArg some (readHex_hexDigits (by norm_num) hbyte rest)
  · exact congrArg some (readHex_hexDigits (by norm_num) hword rest)
  · exact congrArg some (readHex_hexDigits (by norm_num) hvalid rest)

/-- A quoted character does not begin like the closing quote. -/
theorem head?_quoteChar {mark : Char} (hmark : IsMark mark) (c : Char) :
    ∃ first rest, quoteChar mark c = first :: rest ∧ first ≠ mark := by
  have hescape : '\\' ≠ mark := by rcases hmark with rfl | rfl <;> decide
  rw [quoteChar]
  split_ifs with hquote
  all_goals first
    | exact ⟨_, _, rfl, hescape⟩
    | exact ⟨_, _, rfl, by simp_all⟩

/-! ## Reading a text -/

theorem flatMap_quoteChar_inj {mark : Char} (hmark : IsMark mark) {rest rest' : List Char} :
    ∀ {as bs : List Char},
      as.flatMap (quoteChar mark) ++ mark :: rest = bs.flatMap (quoteChar mark) ++ mark :: rest' →
      as = bs ∧ rest = rest'
  | [], [], h => ⟨rfl, (List.cons.inj h).2⟩
  | [], b :: bs, h => by
    obtain ⟨first, others, heq, hne⟩ := head?_quoteChar hmark b
    rw [List.flatMap_cons, heq] at h
    exact absurd (List.cons.inj h).1.symm hne
  | a :: as, [], h => by
    obtain ⟨first, others, heq, hne⟩ := head?_quoteChar hmark a
    rw [List.flatMap_cons, heq] at h
    exact absurd (List.cons.inj h).1 hne
  | a :: as, b :: bs, h => by
    have hread := readChar_quoteChar hmark a (as.flatMap (quoteChar mark) ++ mark :: rest)
    rw [List.flatMap_cons, List.flatMap_cons, List.append_assoc, List.append_assoc] at h
    rw [h, readChar_quoteChar hmark, Option.some.injEq, Prod.mk.injEq] at hread
    obtain ⟨rfl, hrest⟩ := hread
    obtain ⟨rfl, hrest'⟩ := flatMap_quoteChar_inj hmark hrest.symm
    exact ⟨rfl, hrest'⟩

theorem toList_quoted (text : String) :
    (quoted text).toList = quoteMark text.toList ::
      (text.toList.flatMap (quoteChar (quoteMark text.toList)) ++ [quoteMark text.toList]) := by
  simp [quoted]

/-- Where quoted text ends can be told from its beginning, and what was quoted. -/
theorem quoted_append_inj {a b : String} {rest rest' : List Char}
    (h : (quoted a).toList ++ rest = (quoted b).toList ++ rest') : a = b ∧ rest = rest' := by
  rw [toList_quoted, toList_quoted, List.cons_append, List.cons_append, List.append_assoc,
    List.append_assoc, List.cons.injEq] at h
  obtain ⟨hmark, htext⟩ := h
  rw [hmark] at htext
  obtain ⟨hab, hrest⟩ := flatMap_quoteChar_inj (isMark_quoteMark b.toList) htext
  exact ⟨String.toList_injective hab, hrest⟩

theorem quoted_injective {a b : String} (h : quoted a = quoted b) : a = b := by
  have happend : (quoted a).toList ++ [] = (quoted b).toList ++ [] := by rw [h]
  exact (quoted_append_inj happend).1

theorem newline_not_mem_quoteChar {mark : Char} (hmark : IsMark mark) (c : Char) :
    '\n' ∉ quoteChar mark c := by
  rw [quoteChar]
  split_ifs with hquote hnewline hreturn htab hprintable hbyte hword
  · simp only [Bool.or_eq_true, decide_eq_true_eq] at hquote
    rcases hquote with rfl | rfl
    · rcases hmark with rfl | rfl <;> decide
    · decide
  · decide
  · decide
  · decide
  · simpa using Ne.symm hnewline
  · simpa using newline_not_mem_hexDigits 2 c.toNat
  · simpa using newline_not_mem_hexDigits 4 c.toNat
  · simpa using newline_not_mem_hexDigits 8 c.toNat

/-- Quoted text stands on one line. -/
theorem newline_not_mem_quoted (text : String) : '\n' ∉ (quoted text).toList := by
  have hmark := isMark_quoteMark text.toList
  have hne : '\n' ≠ quoteMark text.toList := by rcases hmark with h | h <;> rw [h] <;> decide
  rw [toList_quoted]
  simp only [List.mem_cons, List.mem_append, List.mem_flatMap, List.not_mem_nil, or_false, not_or,
    not_exists, not_and]
  exact ⟨hne, fun c _ => newline_not_mem_quoteChar hmark c, hne⟩

end Squishc.Text
