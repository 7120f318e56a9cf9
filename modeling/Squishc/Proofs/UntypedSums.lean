import Mathlib.Data.List.Basic
import Squishc.Proofs.RuleChoice
import Squishc.Resolve

/-!
# Sums of unknown kind

The operator `+` adds integers and joins strings.  When the kind of an operand is only
known in a run, it does the one or the other then: two integers are added, and beside a
string an integer is written out in decimal.  Dropping a literal zero from a sum is right
if the other operand turns out to be an integer.  If it turns out to be a string, the digit
zero that would stand before or behind it is missing.

A zero is lost where one operand is a sum of literals that comes to zero and the other one
has a string for its value.  Optimizing drops these zeros and does nothing else to the
value of a sum.

Main results:

- Theorem `shortened_optimize`: the value of an optimized sum is that of the sum without
  the digits of the lost zeros.
- Theorem `untyped_sum_verdict`: the two values are the same exactly if no zero is lost.
-/

namespace Squishc

/-! ## Values -/

/-- A value that can be added: an integer or a string. -/
inductive Addend where
  | int (n : Int)
  | string (s : String)
deriving DecidableEq, Repr

namespace Addend

/-- A value written out. -/
def text : Addend → String
  | int n => toString n
  | string s => s

def isString : Addend → Bool
  | int _ => false
  | string _ => true

/-- Two integers are added.  With a string among them, values are written out and joined. -/
def plus : Addend → Addend → Addend
  | int m, int n => int (m + n)
  | a, b => string (a.text ++ b.text)

end Addend

namespace Node

/-! ## Sums -/

/-- A sum of integers, strings and variables of which no type is known. -/
def isSum : Node → Bool
  | number (.int _) => true
  | string _ _ => true
  | var v => v.type = .any
  | binary .add left right _ => left.isSum && right.isSum
  | _ => false

/-- The value of a sum when its variables have the given values. -/
def total? (ρ : Variable → Addend) : Node → Option Addend
  | number (.int n) => some (.int n)
  | string chars _ => some (.string chars)
  | var v => some (ρ v)
  | binary .add left right _ =>
    (left.total? ρ).bind fun a => (right.total? ρ).map a.plus
  | _ => none

/-- What a sum of integer literals alone comes to. -/
def literalTotal? : Node → Option Int
  | number (.int n) => some n
  | binary .add left right _ =>
    left.literalTotal?.bind fun m => right.literalTotal?.map (m + ·)
  | _ => none

/-- Whether a sum has a string for its value. -/
def isText (ρ : Variable → Addend) (e : Node) : Bool := (e.total? ρ).any Addend.isString

/-- Whether literals that come to zero are added to a string. -/
def zeroBesideString (ρ : Variable → Addend) (left right : Node) : Bool :=
  (left.literalTotal? = some 0 && right.isText ρ) ||
    (left.isText ρ && right.literalTotal? = some 0)

/-- The number of additions in a sum that add literal zeros to a string. -/
def lostZeros (ρ : Variable → Addend) : Node → Nat
  | binary .add left right _ =>
    left.lostZeros ρ + right.lostZeros ρ + (zeroBesideString ρ left right).toNat
  | _ => 0

/-! ## Sums of literals -/

theorem total?_of_literalTotal? (ρ : Variable → Addend) {e : Node} {n : Int}
    (h : e.literalTotal? = some n) : e.total? ρ = some (.int n) := by
  fun_induction literalTotal? e generalizing n with
  | case1 m =>
    cases h
    rfl
  | case2 left right type ihl ihr =>
    obtain ⟨m, hm, hrest⟩ := Option.bind_eq_some_iff.1 h
    obtain ⟨k, hk, rfl⟩ := Option.map_eq_some_iff.1 hrest
    rw [total?, ihl hm, ihr hk]
    rfl
  | case3 => cases h

theorem optimize_of_literalTotal? {e : Node} {n : Int} (h : e.literalTotal? = some n) :
    e.optimize = number (.int n) := by
  fun_induction literalTotal? e generalizing n with
  | case1 m =>
    cases h
    rfl
  | case2 left right type ihl ihr =>
    obtain ⟨m, hm, hrest⟩ := Option.bind_eq_some_iff.1 h
    obtain ⟨k, hk, rfl⟩ := Option.map_eq_some_iff.1 hrest
    rw [optimize_binary, ihl hm, ihr hk]
    rfl
  | case3 => cases h

theorem neutralLeft_add_iff {n : Node} :
    n.neutralLeft .add = true ↔ ∃ a, n = number a ∧ a.isZero = true := by
  cases n <;> simp [neutralLeft]

theorem neutralRight_add_iff {n : Node} :
    n.neutralRight .add = true ↔ ∃ b, n = number b ∧ b.isZero = true := by
  cases n <;> simp [neutralRight]

theorem absorbs_add (left right : Node) : absorbs .add left right = false := by
  have hleft : left.absorbsRight .add = false := by cases left <;> simp [absorbsRight]
  have hright : right.absorbsLeft .add = false := by cases right <;> simp [absorbsLeft]
  rw [absorbs, hleft, hright, Bool.or_false]

theorem turnsRight_add (left : Node) : left.turnsRight .add = false := by
  cases left <;> simp [turnsRight]

/-- A sum is a number only if both operands are. -/
theorem isNumber_reduceBinary_add {left right : Node} (type : Ty)
    (h : (left.isNumber && right.isNumber) = false) :
    (reduceBinary .add left right type).isNumber = false := by
  generalize hresult : reduceBinary .add left right type = n
  have hrule := rule_reduceBinary .add left right type
  rw [hresult] at hrule
  cases hrule with
  | folded hleft hright =>
    rw [hleft, hright] at h
    cases h
  | right hneutral =>
    obtain ⟨a, rfl, -⟩ := neutralLeft_add_iff.1 hneutral
    exact h
  | left hneutral =>
    obtain ⟨b, rfl, -⟩ := neutralRight_add_iff.1 hneutral
    rwa [isNumber.eq_1, Bool.and_true] at h
  | turned | kept => rfl
  | absorbed k habsorbs => 
    rw [absorbs_add] at habsorbs
    cases habsorbs

/-- A sum that has an operand other than literals does not become a number. -/
theorem isNumber_optimize_of_isSum {e : Node} (hsum : e.isSum = true)
    (h : e.literalTotal? = none) : e.optimize.isNumber = false := by
  fun_induction isSum e with
  | case1 n => cases h
  | case2 chars type => rfl
  | case3 v => rfl
  | case4 left right type ihl ihr =>
    obtain ⟨hl, hr⟩ := Bool.and_eq_true_iff.1 hsum
    rw [optimize_binary]
    apply isNumber_reduceBinary_add
    rw [Bool.and_eq_false_iff]
    cases hleft : left.literalTotal? with
    | none => exact .inl (ihl hl hleft)
    | some m =>
      right
      apply ihr hr
      simpa [literalTotal?, hleft] using h
  | case5 => cases hsum

theorem optimize_eq_number_iff {e : Node} (hsum : e.isSum = true) {n : Num} :
    e.optimize = number n ↔ ∃ m, n = .int m ∧ e.literalTotal? = some m := by
  constructor
  · intro h
    cases hliteral : e.literalTotal? with
    | none =>
      have hnumber := isNumber_optimize_of_isSum hsum hliteral
      rw [h] at hnumber
      cases hnumber
    | some m =>
      rw [optimize_of_literalTotal? hliteral] at h
      cases h
      exact ⟨m, rfl, rfl⟩
  · rintro ⟨m, rfl, hm⟩
    exact optimize_of_literalTotal? hm

end Node

/-! ## Missing zeros -/

/-- The second value is the first one, except that in a string some digits zero are
missing. -/
inductive Shortened : Nat → Addend → Addend → Prop where
  | int (n : Int) : Shortened 0 (.int n) (.int n)
  | string {k : Nat} {s t : String} (hsublist : t.toList.Sublist s.toList)
      (hperm : s.toList.Perm (List.replicate k '0' ++ t.toList)) :
      Shortened k (.string s) (.string t)

namespace Shortened

variable {k l : Nat} {a a' b b' : Addend}

theorem refl (a : Addend) : Shortened 0 a a := by
  cases a with
  | int n => exact .int n
  | string s => exact .string (.refl _) (.refl _)

theorem sublist_text (h : Shortened k a a') : a'.text.toList.Sublist a.text.toList := by
  cases h with
  | int n => exact .refl _
  | string hsublist => exact hsublist

theorem perm_text (h : Shortened k a a') :
    a.text.toList.Perm (List.replicate k '0' ++ a'.text.toList) := by
  cases h with
  | int n => exact .refl _
  | string _ hperm => exact hperm

/-- Digits that are missing in the texts of two values are missing in the joined text. -/
theorem join (ha : Shortened k a a') (hb : Shortened l b b') :
    Shortened (k + l) (.string (a.text ++ b.text)) (.string (a'.text ++ b'.text)) := by
  constructor
  · rw [String.toList_append, String.toList_append]
    exact ha.sublist_text.append hb.sublist_text
  · rw [String.toList_append, String.toList_append]
    calc (a.text.toList ++ b.text.toList).Perm
          ((List.replicate k '0' ++ a'.text.toList) ++
            (List.replicate l '0' ++ b'.text.toList)) := ha.perm_text.append hb.perm_text
      _ = List.replicate k '0' ++
          ((a'.text.toList ++ List.replicate l '0') ++ b'.text.toList) := by
        simp only [List.append_assoc]
      List.Perm _ (List.replicate k '0' ++
          ((List.replicate l '0' ++ a'.text.toList) ++ b'.text.toList)) :=
        ((List.perm_append_comm).append_right _).append_left _
      _ = List.replicate (k + l) '0' ++ (a'.text.toList ++ b'.text.toList) := by
        simp only [List.replicate_add, List.append_assoc]

theorem plus (ha : Shortened k a a') (hb : Shortened l b b') :
    Shortened (k + l) (a.plus b) (a'.plus b') := by
  cases ha with
  | int m =>
    cases hb with
    | int n => exact .int (m + n)
    | string hsublist hperm => exact (Shortened.int m).join (.string hsublist hperm)
  | string hsublist hperm => exact (Shortened.string hsublist hperm).join hb

/-- The digit of a zero that is dropped before a string is missing. -/
theorem zero_plus (h : Shortened k a a') :
    Shortened (k + a.isString.toNat) ((Addend.int 0).plus a) a' := by
  cases h with
  | int n =>
    rw [Addend.plus, Int.zero_add]
    exact .int n
  | string hsublist hperm =>
    have hzero : (Addend.int 0).text.toList = ['0'] := rfl
    constructor
    · rw [String.toList_append, hzero]
      exact hsublist.cons '0'
    · rw [String.toList_append, hzero]
      exact hperm.cons '0'

/-- The digit of a zero that is dropped behind a string is missing. -/
theorem plus_zero (h : Shortened k a a') :
    Shortened (k + a.isString.toNat) (a.plus (.int 0)) a' := by
  cases h with
  | int n =>
    rw [Addend.plus, Int.add_zero]
    exact .int n
  | string hsublist hperm =>
    have hzero : (Addend.int 0).text.toList = ['0'] := rfl
    constructor
    · rw [String.toList_append, hzero]
      exact hsublist.trans (List.sublist_append_left ..)
    · rw [String.toList_append, hzero]
      exact (List.perm_append_singleton ..).trans (hperm.cons '0')

theorem eq_iff (h : Shortened k a a') : a' = a ↔ k = 0 := by
  cases h with
  | int n => simp
  | string hsublist hperm =>
    have hlength := hperm.length_eq
    rw [List.length_append, List.length_replicate] at hlength
    rw [Addend.string.injEq, ← String.toList_inj]
    constructor
    · intro heq
      rw [heq] at hlength
      omega
    · rintro rfl
      exact hsublist.eq_of_length (by omega)

end Shortened

namespace Node

variable {ρ : Variable → Addend} {left right : Node} {a b : Addend}

theorem isText_eq {e : Node} (h : e.total? ρ = some a) : e.isText ρ = a.isString := by
  rw [isText, h, Option.any_some]

/-- A sum of literals is no string. -/
theorem isText_of_literalTotal? {e : Node} {n : Int} (h : e.literalTotal? = some n) :
    e.isText ρ = false :=
  isText_eq (total?_of_literalTotal? ρ h)

/-- A sum that becomes zero is a sum of literals that comes to zero. -/
theorem literalTotal?_of_isZero {e : Node} (hsum : e.isSum = true) {n : Num}
    (h : e.optimize = number n) (hzero : n.isZero = true) : e.literalTotal? = some 0 := by
  obtain ⟨m, rfl, hm⟩ := (optimize_eq_number_iff hsum).1 h
  obtain rfl : m = 0 := by simpa [Num.isZero] using hzero
  exact hm

/-- A sum that is a string does not become a number. -/
theorem isNumber_optimize_of_isText {e : Node} (hsum : e.isSum = true) (h : e.isText ρ = true) :
    e.optimize.isNumber = false := by
  apply isNumber_optimize_of_isSum hsum
  cases hliteral : e.literalTotal? with
  | none => rfl
  | some n =>
    rw [isText_of_literalTotal? hliteral] at h
    cases h

theorem zeroBesideString_of_left (h : left.literalTotal? = some 0) :
    zeroBesideString ρ left right = right.isText ρ := by
  simp [zeroBesideString, h, isText_of_literalTotal? h]

theorem zeroBesideString_of_right (h : right.literalTotal? = some 0) :
    zeroBesideString ρ left right = left.isText ρ := by
  simp [zeroBesideString, h, isText_of_literalTotal? h]

/-- Where no rule applies no zero is lost. -/
theorem zeroBesideString_of_not_reducible (hleft : left.isSum = true) (hright : right.isSum = true)
    (h : reducible .add left.optimize right.optimize = false) :
    zeroBesideString ρ left right = false := by
  rw [← Bool.not_eq_true]
  intro hzero
  simp only [zeroBesideString, Bool.or_eq_true, Bool.and_eq_true, decide_eq_true_eq] at hzero
  rcases hzero with ⟨hliteral, htext⟩ | ⟨htext, hliteral⟩
  · have hneutral : left.optimize.neutralLeft .add = true :=
      neutralLeft_add_iff.2 ⟨_, optimize_of_literalTotal? hliteral, rfl⟩
    simp [reducible, isNumber_optimize_of_isText hright htext, hneutral] at h
  · have hneutral : right.optimize.neutralRight .add = true :=
      neutralRight_add_iff.2 ⟨_, optimize_of_literalTotal? hliteral, rfl⟩
    simp [reducible, isNumber_optimize_of_isText hleft htext, hneutral] at h

/-- What one addition makes of the values of its optimized operands. -/
theorem shortened_reduceBinary_add {k l : Nat} {a' b' : Addend} (type : Ty)
    (hleft : left.isSum = true) (hright : right.isSum = true)
    (ha : left.total? ρ = some a) (ha' : left.optimize.total? ρ = some a') (hk : Shortened k a a')
    (hb : right.total? ρ = some b) (hb' : right.optimize.total? ρ = some b')
    (hl : Shortened l b b') :
    ∃ c, (reduceBinary .add left.optimize right.optimize type).total? ρ = some c ∧
      Shortened (k + l + (zeroBesideString ρ left right).toNat) (a.plus b) c := by
  generalize hresult : reduceBinary .add left.optimize right.optimize type = n
  have hrule := rule_reduceBinary .add left.optimize right.optimize type
  rw [hresult] at hrule
  cases hrule with
  | folded hnumber hnumber' hfold =>
    -- Only literals are folded, and these are no strings.
    obtain ⟨m, rfl, hm⟩ := (optimize_eq_number_iff hleft).1 hnumber
    obtain ⟨n, rfl, hn⟩ := (optimize_eq_number_iff hright).1 hnumber'
    cases hfold
    rw [hnumber] at ha'
    rw [hnumber'] at hb'
    cases ha'
    cases hb'
    refine ⟨_, rfl, ?_⟩
    rw [zeroBesideString, isText_of_literalTotal? hm, isText_of_literalTotal? hn, Bool.and_false,
      Bool.false_and]
    exact hk.plus hl
  | right hneutral =>
    -- The zero on the left is dropped.  Its digit is missing if the right operand is a string.
    obtain ⟨x, hx, hzero⟩ := neutralLeft_add_iff.1 hneutral
    have hliteral := literalTotal?_of_isZero hleft hx hzero
    rw [total?_of_literalTotal? ρ hliteral] at ha
    cases ha
    cases hk
    refine ⟨b', hb', ?_⟩
    rw [zeroBesideString_of_left hliteral, isText_eq hb, Nat.zero_add]
    exact hl.zero_plus
  | left hneutral =>
    obtain ⟨y, hy, hzero⟩ := neutralRight_add_iff.1 hneutral
    have hliteral := literalTotal?_of_isZero hright hy hzero
    rw [total?_of_literalTotal? ρ hliteral] at hb
    cases hb
    cases hl
    refine ⟨a', ha', ?_⟩
    rw [zeroBesideString_of_right hliteral, isText_eq ha, Nat.add_zero]
    exact hk.plus_zero
  | turned hturns =>
    rw [turnsRight_add] at hturns
    cases hturns
  | absorbed _ habsorbs =>
    rw [absorbs_add] at habsorbs
    cases habsorbs
  | kept hirreducible =>
    have hc : (binary .add left.optimize right.optimize type).total? ρ = some (a'.plus b') := by
      rw [total?, ha', hb', Option.bind_some, Option.map_some]
    refine ⟨a'.plus b', hc, ?_⟩
    rw [zeroBesideString_of_not_reducible hleft hright hirreducible]
    exact hk.plus hl

/-- A sum and its optimized form have values, and these differ by the digits of the lost
zeros. -/
theorem shortened_optimize (ρ : Variable → Addend) {e : Node} (hsum : e.isSum = true) :
    ∃ a b, e.total? ρ = some a ∧ e.optimize.total? ρ = some b ∧ Shortened (e.lostZeros ρ) a b := by
  fun_induction isSum e with
  | case1 n => exact ⟨_, _, rfl, rfl, .refl _⟩
  | case2 chars type => exact ⟨_, _, rfl, rfl, .refl _⟩
  | case3 v => exact ⟨_, _, rfl, rfl, .refl _⟩
  | case4 left right type ihl ihr =>
    obtain ⟨hleft, hright⟩ := Bool.and_eq_true_iff.1 hsum
    obtain ⟨a, a', ha, ha', hk⟩ := ihl hleft
    obtain ⟨b, b', hb, hb', hl⟩ := ihr hright
    obtain ⟨c, hc, hshort⟩ := shortened_reduceBinary_add type hleft hright ha ha' hk hb hb' hl
    refine ⟨a.plus b, c, ?_, hc, hshort⟩
    rw [total?, ha, hb, Option.bind_some, Option.map_some]
  | case5 => cases hsum

end Node

/-- A sum of which no types are known has a value and so has its optimized form.  They
differ by the digits of the zeros that are lost, and are the same exactly if none is. -/
theorem untyped_sum_verdict (ρ : Variable → Addend) {e : Node} (hsum : e.isSum = true) :
    ∃ a b, e.total? ρ = some a ∧ e.optimize.total? ρ = some b ∧
      Shortened (e.lostZeros ρ) a b ∧ (b = a ↔ e.lostZeros ρ = 0) := by
  obtain ⟨a, b, ha, hb, hshort⟩ := Node.shortened_optimize ρ hsum
  exact ⟨a, b, ha, hb, hshort, hshort.eq_iff⟩

/-- A parameter between zeros: `0 + ((x + 0) + (1 + -1))`. -/
def paddedParameter : Node :=
  .binary .add (.number (.int 0))
    (.binary .add (.binary .add (.var ⟨1, "x", .any⟩) (.number (.int 0)) .any)
      (.binary .add (.number (.int 1)) (.number (.int (-1))) .int) .any) .any

/-- All three zeros are lost if the parameter is a string, and none if it is an integer. -/
theorem paddedParameter_verdict :
    paddedParameter.isSum = true ∧
    (∃ a b, paddedParameter.total? (fun _ => .string "a") = some a ∧
      paddedParameter.optimize.total? (fun _ => .string "a") = some b ∧ Shortened 3 a b ∧ b ≠ a) ∧
    ∃ a, paddedParameter.total? (fun _ => .int 5) = some a ∧
      paddedParameter.optimize.total? (fun _ => .int 5) = some a := by
  have hstring : paddedParameter.lostZeros (fun _ => .string "a") = 3 := rfl
  have hint : paddedParameter.lostZeros (fun _ => .int 5) = 0 := rfl
  refine ⟨rfl, ?_, ?_⟩
  · obtain ⟨a, b, ha, hb, hshort, hiff⟩ :=
      untyped_sum_verdict (fun _ => .string "a") (e := paddedParameter) rfl
    rw [hstring] at hshort hiff
    exact ⟨a, b, ha, hb, hshort, fun heq => nomatch hiff.1 heq⟩
  · obtain ⟨a, b, ha, hb, -, hiff⟩ :=
      untyped_sum_verdict (fun _ => .int 5) (e := paddedParameter) rfl
    rw [hiff.2 hint] at hb
    exact ⟨a, ha, hb⟩

/-- The function `g` of one parameter that returns `0 + x`. -/
def zeroBeforeParameter : Surface.Program :=
  ⟨[.function ⟨1, 1⟩ "g" [⟨⟨1, 5⟩, "x"⟩]
    [.ret ⟨1, 8⟩ (some (.binary ⟨1, 15⟩ .add (.int ⟨1, 15⟩ 0) (.var ⟨1, 19⟩ "x")))]]⟩

/-- That function returns `"0a"` for `"a"`, and `"a"` once it is optimized. -/
theorem zeroBeforeParameter_lost :
    ∃ e : Node, resolve zeroBeforeParameter =
        .ok (.program [.define ⟨0, "g", [⟨1, "x", .any⟩]⟩ [.ret e]]) ∧
      e.isSum = true ∧ e.total? (fun _ => .string "a") = some (.string "0a") ∧
      e.optimize.total? (fun _ => .string "a") = some (.string "a") :=
  ⟨_, rfl, rfl, rfl, rfl⟩

end Squishc
