import Squishc.Proofs.JsNaming
import Squishc.Proofs.JsTokens

/-!
# Reading expressions of JavaScript

A reader of JavaScript's expressions goes through the tokens once, from left to right.
It keeps what is open on a stack: brackets, signs, and left operands with their
operators.  An operator first completes what binds tighter than itself.  Calls and
subscripts take the operand in front of them at once, so they bind tighter than signs,
and a sign in front of the base of a power is refused.

The text of an expression is cut into the tokens that were meant, and these are read as
the expression itself.  What stays open behind an operand is at most the sign of a
negative number, which every bracket, comma and operator but the power completes.

Main results:

- Theorem `Expr.lexed`: the text of an expression in front of a delimiter is cut into
  its tokens.
- Theorem `Expr.run_toks`: what the tokens of an expression leave on the stack.
- Theorem `Expr.read_text`: the text of an expression is read as the expression.
-/

namespace Squishc.Js

namespace Script

/-! ## The reader -/

/-- An expression as it is read. -/
inductive Form where
  | word (name : String)
  | bool (value : Bool)
  | numeral (text : String)
  | text (value : String)
  | sign (op : String) (operand : Form)
  | binary (op : String) (left right : Form)
  | conditional (test consequent alternate : Form)
  | call (callee : Form) (args : List Form)
  | array (elements : List Form)
  | index (array index : Form)
deriving Repr, Inhabited

/-- What is open at a place of a text. -/
inductive Frame where
  /-- A sign without its operand. -/
  | sign (op : String)
  /-- An operator with its level and left operand. -/
  | left (op : String) (level : Nat) (operand : Form)
  /-- The test of a conditional. -/
  | question (test : Form)
  /-- The test and the first branch of a conditional. -/
  | colon (test consequent : Form)
  | paren
  | args (callee : Form) (done : List Form)
  | elements (done : List Form)
  | subscript (array : Form)

/-- How far a text has been read: an operand is to follow, or one has just been read. -/
inductive State where
  | operand (stack : List Frame)
  | operator (form : Form) (stack : List Frame)

/-- The words that are no names. -/
def reserved : List String :=
  ["await", "break", "case", "catch", "class", "const", "continue", "debugger", "default",
    "delete", "do", "else", "enum", "export", "extends", "finally", "for", "function", "if",
    "implements", "import", "in", "instanceof", "interface", "let", "new", "null", "package",
    "private", "protected", "public", "return", "static", "super", "switch", "this", "throw",
    "try", "typeof", "var", "void", "while", "with", "yield"]

/-- The signs that may stand in front of an operand. -/
def signs : List (List Char) := [['-'], ['+'], ['!'], ['~']]

/-- The operators that group to the left, from loose to tight. -/
def levels : List (List (List Char)) :=
  [[['|', '|']], [['&', '&']], [['|']], [['^']], [['&']],
    [['=', '='], ['!', '='], ['=', '=', '='], ['!', '=', '=']],
    [['<'], ['>'], ['<', '='], ['>', '=']],
    [['<', '<'], ['>', '>'], ['>', '>', '>']],
    [['+'], ['-']],
    [['*'], ['/'], ['%']]]

/-- The level of an operator that groups to the left. -/
def level? (m : List Char) : Option Nat := levels.findIdx? (·.contains m)

/-- A word as an operand. -/
def wordForm? (chars : List Char) : Option Form :=
  if chars = ['t', 'r', 'u', 'e'] then some (.bool true)
  else if chars = ['f', 'a', 'l', 's', 'e'] then some (.bool false)
  else if reserved.contains (.ofList chars) then none
  else some (.word (.ofList chars))

/-- Completes the signs and the operators that bind at least as tight as a level. -/
def settle (level : Nat) : Form → List Frame → Form × List Frame
  | form, .sign op :: rest => settle level (.sign op form) rest
  | form, .left op l operand :: rest =>
    if level ≤ l then settle level (.binary op operand form) rest
    else (form, .left op l operand :: rest)
  | form, rest => (form, rest)

/-- Completes everything up to the innermost bracket. -/
def close : Form → List Frame → Form × List Frame
  | form, .sign op :: rest => close (.sign op form) rest
  | form, .left op _ operand :: rest => close (.binary op operand form) rest
  | form, .colon test consequent :: rest => close (.conditional test consequent form) rest
  | form, rest => (form, rest)

/-- A power groups to the right, and its base has no sign in front. -/
def power (base : Form) : List Frame → Option State
  | .sign _ :: _ => none
  | stack => some (.operand (.left "**" levels.length base :: stack))

/-- A mark where an operand is to follow. -/
def atOperand (m : List Char) (stack : List Frame) : Option State :=
  if m = ['('] then some (.operand (.paren :: stack))
  else if m = ['['] then some (.operand (.elements [] :: stack))
  else if signs.contains m then some (.operand (.sign (.ofList m) :: stack))
  else match m, stack with
    | [')'], .args callee done :: rest => some (.operator (.call callee done) rest)
    | [']'], .elements done :: rest => some (.operator (.array done) rest)
    | _, _ => none

/-- A mark that ends what stands in the innermost bracket, or a part of it. -/
def atEnd (m : List Char) (form : Form) (stack : List Frame) : Option State :=
  match m, stack with
  | [':'], .question test :: rest => some (.operand (.colon test form :: rest))
  | [')'], .paren :: rest => some (.operator form rest)
  | [')'], .args callee done :: rest => some (.operator (.call callee (done ++ [form])) rest)
  | [','], .args callee done :: rest => some (.operand (.args callee (done ++ [form]) :: rest))
  | [']'], .elements done :: rest => some (.operator (.array (done ++ [form])) rest)
  | [','], .elements done :: rest => some (.operand (.elements (done ++ [form]) :: rest))
  | [']'], .subscript array :: rest => some (.operator (.index array form) rest)
  | _, _ => none

/-- A mark behind an operand. -/
def atOperator (m : List Char) (form : Form) (stack : List Frame) : Option State :=
  if m = ['('] then some (.operand (.args form [] :: stack))
  else if m = ['['] then some (.operand (.subscript form :: stack))
  else if m = ['*', '*'] then power form stack
  else match level? m with
    | some level =>
      let (left, rest) := settle level form stack
      some (.operand (.left (.ofList m) level left :: rest))
    | none =>
      if m = ['?'] then
        let (test, rest) := settle 0 form stack
        some (.operand (.question test :: rest))
      else
        let (whole, rest) := close form stack
        atEnd m whole rest

/-- Reads one token. -/
def step : State → Tok → Option State
  | .operand stack, .word chars => (wordForm? chars).map (.operator · stack)
  | .operand stack, .numeral chars => some (.operator (.numeral (.ofList chars)) stack)
  | .operand stack, .text value => some (.operator (.text (.ofList value)) stack)
  | .operand stack, .mark m => atOperand m stack
  | .operator form stack, .mark m => atOperator m form stack
  | .operator _ _, _ => none

/-- Reads some tokens. -/
def run (toks : List Tok) (state : State) : Option State := toks.foldlM step state

/-- The expression that was read, if nothing is left open. -/
def finish : State → Option Form
  | .operand _ => none
  | .operator form stack =>
    match close form stack with
    | (whole, []) => some whole
    | _ => none

/-- Reads a text as one expression. -/
def read (A : Alphabet) (text : String) : Option Form := do
  let toks ← lex A text.toList
  let state ← run toks (.operand [])
  finish state

theorem run_append (toks others : List Tok) (state : State) :
    run (toks ++ others) state = (run toks state).bind (run others) := List.foldlM_append

theorem run_cons (t : Tok) (toks : List Tok) (state : State) :
    run (t :: toks) state = (step state t).bind (run toks) := List.foldlM_cons

/-- The form of a number without a negative sign. -/
def magnitudeForm (v : Num) : Form :=
  match v.named? with
  | some name => .word name
  | none => .numeral v.literal

/-- The form of a number.  A negative number is a sign and its opposite. -/
def numberForm (v : Num) : Form :=
  if v.isNegative then .sign "-" (magnitudeForm v.neg) else magnitudeForm v

/-- The token of a number without a negative sign. -/
def magnitudeTok (v : Num) : Tok :=
  match v.named? with
  | some name => .word name.toList
  | none => .numeral v.literal.toList

end Script

open Script

/-! ## Expressions as forms and as tokens -/

/-- The operators that stand between two operands. -/
def binaryOps : List Op :=
  [.add, .sub, .mul, .div, .mod, .pow, .lt, .le, .eq, .ne, .ge, .gt, .conj, .disj]

/-- The operators that stand in front of an operand. -/
def unaryOps : List Op := [.sub, .not]

/-- Whether an expression is a number. -/
def Expr.isNumber : Expr → Bool
  | .number _ => true
  | _ => false

/-- Whether an expression is a negative number. -/
def Expr.isNegative : Expr → Bool
  | .number v => v.isNegative
  | _ => false

mutual

/-- Whether an expression has known operators and identifiers only, and no subscript of a
number. -/
def Expr.isPlain (A : Alphabet) : Expr → Bool
  | .bool _ | .number _ | .string _ => true
  | .name n => A.isIdentifier n.base
  | .unary op operand => unaryOps.contains op && operand.isPlain A
  | .binary op left right => binaryOps.contains op && left.isPlain A && right.isPlain A
  | .conditional test consequent alternate =>
    test.isPlain A && consequent.isPlain A && alternate.isPlain A
  | .call callee args => A.isIdentifier callee.base && allPlain A args
  | .array elements => allPlain A elements
  | .index array index => !array.isNumber && array.isPlain A && index.isPlain A
  | .blank => false

/-- Whether all expressions of a list are plain. -/
def allPlain (A : Alphabet) : List Expr → Bool
  | [] => true
  | e :: rest => e.isPlain A && allPlain A rest

end

mutual

/-- The form of an expression. -/
def Expr.form : Expr → Form
  | .bool value => .bool value
  | .number value => numberForm value
  | .string value => .text value
  | .name n => .word n.text
  | .unary op operand => .sign op.text operand.form
  | .binary op left right => .binary (operatorText op) left.form right.form
  | .conditional test consequent alternate =>
    .conditional test.form consequent.form alternate.form
  | .call callee args => .call (.word callee.text) (forms args)
  | .array elements => .array (forms elements)
  | .index array index => .index array.form index.form
  | .blank => .word ""

/-- The forms of some expressions. -/
def forms : List Expr → List Form
  | [] => []
  | e :: rest => e.form :: forms rest

end

/-- The tokens of a left operand, given whether it is a negative number. -/
def leftToks (op : Op) (negative : Bool) (toks : List Tok) : List Tok :=
  if op = .pow && negative then .mark ['('] :: (toks ++ [.mark [')']]) else toks

mutual

/-- The tokens of an expression. -/
def Expr.toks : Expr → List Tok
  | .bool value => [.word (if value then ['t', 'r', 'u', 'e'] else ['f', 'a', 'l', 's', 'e'])]
  | .number v => if v.isNegative then [.mark ['-'], magnitudeTok v.neg] else [magnitudeTok v]
  | .string value => [.text value.toList]
  | .name n => [.word n.text.toList]
  | .unary op operand => .mark ['('] :: .mark op.text.toList :: (operand.toks ++ [.mark [')']])
  | .binary op left right =>
    .mark ['('] :: (leftToks op left.isNegative left.toks ++
      .mark (operatorText op).toList :: (right.toks ++ [.mark [')']]))
  | .conditional test consequent alternate =>
    .mark ['('] :: (test.toks ++ .mark ['?'] :: (consequent.toks ++
      .mark [':'] :: (alternate.toks ++ [.mark [')']])))
  | .call callee args => .word callee.text.toList :: .mark ['('] :: (itemToks args ++ [.mark [')']])
  | .array elements => .mark ['['] :: (itemToks elements ++ [.mark [']']])
  | .index array index => array.toks ++ .mark ['['] :: (index.toks ++ [.mark [']']])
  | .blank => []

/-- The tokens of some expressions with commas in between. -/
def itemToks : List Expr → List Tok
  | [] => []
  | [e] => e.toks
  | e :: rest => e.toks ++ .mark [','] :: itemToks rest

end

/-! ## Reading the tokens -/

namespace Script

/-- Reading some tokens leads from one state to another. -/
def Runs (toks : List Tok) (state state' : State) : Prop := run toks state = some state'

theorem Runs.nil (state : State) : Runs [] state state := rfl

theorem Runs.append {toks others : List Tok} {s t u : State} (h : Runs toks s t)
    (h' : Runs others t u) : Runs (toks ++ others) s u := by
  rw [Runs, run_append, h]
  exact h'

theorem Runs.cons {toks : List Tok} {t : Tok} {s s' u : State} (h : step s t = some s')
    (h' : Runs toks s' u) : Runs (t :: toks) s u := by
  rw [Runs, run_cons, h]
  exact h'

theorem Runs.single {t : Tok} {s s' : State} (h : step s t = some s') : Runs [t] s s' :=
  .cons h (.nil s')

end Script

/-- What the tokens of an expression lead to: the expression, or a number and the sign in
front of it that still waits for its operand. -/
def pending (e : Expr) (stack : List Frame) : State :=
  match e with
  | .number v =>
    if v.isNegative then .operator (magnitudeForm v.neg) (.sign "-" :: stack)
    else .operator (magnitudeForm v) stack
  | e => .operator e.form stack

theorem pending_of_not_isNegative {e : Expr} (h : e.isNegative = false) (stack : List Frame) :
    pending e stack = .operator e.form stack := by
  cases e with
  | number v =>
    have hv : v.isNegative = false := h
    simp [pending, Expr.form, numberForm, hv]
  | _ => rfl

/-- Every mark that does not take an operand at once completes a sign first. -/
theorem step_pending (e : Expr) (stack : List Frame) {m : List Char}
    (hm : m ∉ [['('], ['['], ['*', '*']]) :
    step (pending e stack) (.mark m) = step (.operator e.form stack) (.mark m) := by
  simp only [List.mem_cons, List.not_mem_nil, or_false, not_or] at hm
  obtain ⟨hparen, hbracket, hpower⟩ := hm
  cases e with
  | number v =>
    simp only [pending, Expr.form, numberForm]
    split
    · simp only [step, atOperator, hparen, hbracket, hpower, if_false, settle, close]
    · rfl
  | _ => rfl

theorem step_magnitude {v : Num} (h : v.isNegative = false) (stack : List Frame) :
    step (.operand stack) (magnitudeTok v) = some (.operator (magnitudeForm v) stack) := by
  have hliteral := Num.literal_of_nonneg h
  simp only [magnitudeTok, magnitudeForm]
  cases hname : v.named? with
  | none => simp [step]
  | some name =>
    rw [hname] at hliteral
    obtain ⟨-, hmem⟩ := hliteral
    simp only [List.mem_cons, List.not_mem_nil, or_false] at hmem
    rcases hmem with rfl | rfl <;> rfl

/-- A name of the program is no word of the language. -/
theorem wordForm?_text (n : Name) : wordForm? n.text.toList = some (.word n.text) := by
  have hmem : '_' ∈ n.text.toList := by simp [Name.toList_text]
  have hreserved : reserved.contains n.text = false := by
    have hall : reserved.all (fun word => !word.toList.contains '_') = true := rfl
    rw [List.contains_eq_any_beq, List.any_eq_false]
    intro word hword heq
    have hword' := List.all_eq_true.mp hall word hword
    rw [← eq_of_beq heq] at hword'
    simp [hmem] at hword'
  unfold wordForm?
  rw [String.ofList_toList, hreserved, if_neg, if_neg]
  · rfl
  · intro heq
    rw [heq] at hmem
    exact absurd hmem (by decide)
  · intro heq
    rw [heq] at hmem
    exact absurd hmem (by decide)

theorem step_binary {op : Op} (hop : binaryOps.contains op = true) (form : Form)
    (stack : List Frame) :
    ∃ level, step (.operator form (.paren :: stack)) (.mark (operatorText op).toList) =
      some (.operand (.left (operatorText op) level form :: .paren :: stack)) := by
  cases op with
  | not => exact absurd hop (by decide)
  | other text => exact absurd hop (by simp [binaryOps])
  | _ => exact ⟨_, rfl⟩

/-- A bracket whose items are collected up to the closing mark. -/
structure Collects (m : List Char) (frame : List Form → Frame) (result : List Form → Form) :
    Prop where
  ends : m ∉ [['('], ['['], ['*', '*']]
  empty : ∀ done stack, step (.operand (frame done :: stack)) (.mark m) =
    some (.operator (result done) stack)
  last : ∀ done form stack, step (.operator form (frame done :: stack)) (.mark m) =
    some (.operator (result (done ++ [form])) stack)
  comma : ∀ done form stack, step (.operator form (frame done :: stack)) (.mark [',']) =
    some (.operand (frame (done ++ [form]) :: stack))

theorem collects_args (callee : Form) : Collects [')'] (.args callee) (.call callee) :=
  ⟨by decide, fun _ _ => rfl, fun _ _ _ => rfl, fun _ _ _ => rfl⟩

theorem collects_elements : Collects [']'] .elements .array :=
  ⟨by decide, fun _ _ => rfl, fun _ _ _ => rfl, fun _ _ _ => rfl⟩

theorem Collects.runs {m : List Char} {frame : List Form → Frame} {result : List Form → Form}
    (h : Collects m frame result) {es : List Expr}
    (hes : ∀ e ∈ es, ∀ stack, Runs e.toks (.operand stack) (pending e stack))
    (done : List Form) (stack : List Frame) :
    Runs (itemToks es ++ [.mark m]) (.operand (frame done :: stack))
      (.operator (result (done ++ forms es)) stack) := by
  induction es generalizing done with
  | nil =>
    rw [forms, List.append_nil]
    exact .single (h.empty done stack)
  | cons e rest ih =>
    rw [List.forall_mem_cons] at hes
    have hfirst := hes.1 (frame done :: stack)
    cases rest with
    | nil =>
      refine hfirst.append (.single ?_)
      rw [step_pending e _ h.ends]
      exact h.last done e.form stack
    | cons e' rest =>
      have hcomma : step (pending e (frame done :: stack)) (.mark [',']) =
          some (.operand (frame (done ++ [e.form]) :: stack)) := by
        rw [step_pending e _ (by decide)]
        exact h.comma done e.form stack
      have hrest := ih hes.2 (done ++ [e.form])
      rw [itemToks, List.append_assoc, List.cons_append, forms]
      · rw [List.append_assoc, List.singleton_append] at hrest
        exact hfirst.append (.cons hcomma hrest)
      · simp

theorem operatorText_not_mem {op : Op} (hop : binaryOps.contains op = true) (hpow : op ≠ .pow) :
    (operatorText op).toList ∉ [['('], ['['], ['*', '*']] := by
  cases op with
  | pow => exact absurd rfl hpow
  | other text => exact absurd hop (by simp [binaryOps])
  | _ => decide

/-- An operator takes the whole left operand: it completes the sign of a negative number, or
the number stands in parentheses. -/
theorem runs_left {op : Op} (hop : binaryOps.contains op = true) {left : Expr}
    (hleft : ∀ stack, Runs left.toks (.operand stack) (pending left stack)) (stack : List Frame) :
    ∃ state, Runs (leftToks op left.isNegative left.toks) (.operand (.paren :: stack)) state ∧
      step state (.mark (operatorText op).toList) =
        step (.operator left.form (.paren :: stack)) (.mark (operatorText op).toList) := by
  unfold leftToks
  by_cases hpow : op = .pow
  · rcases hneg : left.isNegative with _ | _
    · refine ⟨_, by simpa using hleft (.paren :: stack), ?_⟩
      rw [pending_of_not_isNegative hneg]
    · refine ⟨.operator left.form (.paren :: stack), ?_, rfl⟩
      rw [if_pos (by simp [hpow])]
      refine .cons rfl ((hleft (.paren :: .paren :: stack)).append (.single ?_))
      rw [step_pending left _ (by decide)]
      rfl
  · refine ⟨_, by simpa [hpow] using hleft (.paren :: stack), ?_⟩
    exact step_pending left _ (operatorText_not_mem hop hpow)

mutual

/-- The tokens of an expression are read as the expression. -/
theorem Expr.run_toks {A : Alphabet} (e : Expr) (h : e.isPlain A = true) (stack : List Frame) :
    Runs e.toks (.operand stack) (pending e stack) := by
  cases e with
  | bool value => cases value <;> rfl
  | number v =>
    rw [Expr.toks, pending]
    split
    · next hneg => exact .cons rfl (.single (step_magnitude (Num.isNegative_neg hneg) _))
    · next hpos => exact .single (step_magnitude (by simpa using hpos) _)
  | string value => exact .single (by simp [step, pending, Expr.form])
  | name n =>
    refine .single ?_
    rw [step, wordForm?_text]
    rfl
  | unary op operand =>
    rw [Expr.isPlain, Bool.and_eq_true] at h
    have hsign : step (.operand (.paren :: stack)) (.mark op.text.toList) =
        some (.operand (.sign op.text :: .paren :: stack)) := by
      cases op with
      | sub | not => rfl
      | _ => exact absurd h.1 (by simp [unaryOps])
    refine .cons rfl (.cons hsign ((operand.run_toks h.2 _).append (.single ?_)))
    rw [step_pending operand _ (by decide)]
    rfl
  | binary op left right =>
    rw [Expr.isPlain, Bool.and_eq_true, Bool.and_eq_true] at h
    obtain ⟨⟨hop, hleft⟩, hright⟩ := h
    obtain ⟨state, hstate, hstep⟩ := runs_left hop (left.run_toks hleft) stack
    obtain ⟨level, hlevel⟩ := step_binary hop left.form stack
    have hend : step (pending right (.left (operatorText op) level left.form :: .paren :: stack))
        (.mark [')']) =
          some (.operator (.binary (operatorText op) left.form right.form) stack) := by
      rw [step_pending right _ (by decide)]
      rfl
    exact .cons rfl (hstate.append (.cons (hstep.trans hlevel)
      ((right.run_toks hright _).append (.single hend))))
  | conditional test consequent alternate =>
    rw [Expr.isPlain, Bool.and_eq_true, Bool.and_eq_true] at h
    obtain ⟨⟨htest, hconsequent⟩, halternate⟩ := h
    have hquestion : step (pending test (.paren :: stack)) (.mark ['?']) =
        some (.operand (.question test.form :: .paren :: stack)) := by
      rw [step_pending test _ (by decide)]
      rfl
    have hcolon : step (pending consequent (.question test.form :: .paren :: stack)) (.mark [':']) =
        some (.operand (.colon test.form consequent.form :: .paren :: stack)) := by
      rw [step_pending consequent _ (by decide)]
      rfl
    have hend : step (pending alternate (.colon test.form consequent.form :: .paren :: stack))
        (.mark [')']) = some (.operator
          (.conditional test.form consequent.form alternate.form) stack) := by
      rw [step_pending alternate _ (by decide)]
      rfl
    exact .cons rfl ((test.run_toks htest _).append (.cons hquestion
      ((consequent.run_toks hconsequent _).append (.cons hcolon
        ((alternate.run_toks halternate _).append (.single hend))))))
  | call callee args =>
    rw [Expr.isPlain, Bool.and_eq_true] at h
    have hcallee : step (.operand stack) (.word callee.text.toList) =
        some (.operator (.word callee.text) stack) := by
      rw [step, wordForm?_text]
      rfl
    exact .cons hcallee (.cons rfl
      ((collects_args (.word callee.text)).runs (run_toks_of_mem args h.2) [] stack))
  | array elements =>
    rw [Expr.isPlain] at h
    exact .cons rfl (collects_elements.runs (run_toks_of_mem elements h) [] stack)
  | index array index =>
    rw [Expr.isPlain, Bool.and_eq_true, Bool.and_eq_true] at h
    obtain ⟨⟨hnumber, harray⟩, hindex⟩ := h
    have hwhole : pending array stack = .operator array.form stack := by
      refine pending_of_not_isNegative ?_ stack
      cases array with
      | number v => cases hnumber
      | _ => rfl
    have hend : step (pending index (.subscript array.form :: stack)) (.mark [']']) =
        some (.operator (.index array.form index.form) stack) := by
      rw [step_pending index _ (by decide)]
      rfl
    have hstart := array.run_toks harray stack
    rw [hwhole] at hstart
    exact hstart.append (.cons rfl ((index.run_toks hindex _).append (.single hend)))
  | blank => cases h

theorem run_toks_of_mem {A : Alphabet} (es : List Expr) (h : allPlain A es = true) :
    ∀ e ∈ es, ∀ stack, Runs e.toks (.operand stack) (pending e stack) := by
  cases es with
  | nil => simp
  | cons e rest =>
    rw [allPlain, Bool.and_eq_true] at h
    rw [List.forall_mem_cons]
    exact ⟨e.run_toks h.1, run_toks_of_mem rest h.2⟩

end

/-! ## Cutting the text -/

namespace Script

variable {A : Alphabet} {rest : List Char}

theorem Alphabet.exists_of_isIdentifier {text : String} (h : A.isIdentifier text = true) :
    ∃ c tail, text.toList = c :: tail ∧ A.starts c = true ∧ ∀ d ∈ tail, A.continues d = true := by
  unfold Alphabet.isIdentifier at h
  split at h
  · cases h
  · next c tail heq =>
    rw [Bool.and_eq_true, List.all_eq_true] at h
    exact ⟨c, tail, heq, h⟩

theorem Alphabet.continues_of_isAlphanum {c : Char} (hlt : c.toNat < 128)
    (h : c.isAlphanum = true) : A.continues c = true := by
  rw [A.continues_ascii c hlt, h]
  rfl

theorem Alphabet.continues_of_isDigit {c : Char} (h : c.isDigit = true) :
    A.continues c = true := by
  have hclass : ∀ c ∈ ['0', '1', '2', '3', '4', '5', '6', '7', '8', '9'],
      c.toNat < 128 ∧ c.isAlphanum = true := Num.forall_mem_of_all rfl
  obtain ⟨hlt, halnum⟩ := hclass c (mem_digits_of_isDigit h)
  exact A.continues_of_isAlphanum hlt halnum

theorem Lexes.letters {c : Char} {chars : List Char} (hlt : c.toNat < 128) (hc : c.isAlpha = true)
    (hchars : ∀ d ∈ chars, d.toNat < 128 ∧ d.isAlphanum = true) (hrest : Delimited rest) :
    Lexes A (c :: chars ++ rest) [.word (c :: chars)] rest := by
  refine .word ?_ (fun d hd => ?_) (hrest.stops_continues A)
  · rw [A.starts_ascii c hlt, hc]
    rfl
  · exact A.continues_of_isAlphanum (hchars d hd).1 (hchars d hd).2

theorem Lexes.name {n : Name} (h : A.isIdentifier n.base = true) (hrest : Delimited rest) :
    Lexes A (n.text.toList ++ rest) [.word n.text.toList] rest := by
  obtain ⟨c, tail, hbase, hc, htail⟩ := A.exists_of_isIdentifier h
  rw [Name.toList_text, hbase]
  refine .word hc ?_ (hrest.stops_continues A)
  change ∀ d ∈ tail ++ '_' :: Nat.toDigits 10 n.index, A.continues d = true
  simp only [List.forall_mem_append, List.forall_mem_cons]
  refine ⟨htail, ?_, fun d hd => A.continues_of_isDigit ((Number.isDigits_toDigits _).2 d hd)⟩
  rw [A.continues_ascii '_' (by decide)]
  rfl

theorem mark?_minus {c : Char} (hminus : c ≠ '-') (heq : c ≠ '=') (rest : List Char) :
    mark? ('-' :: c :: rest) = some ['-'] := by
  simp [mark?, marks, List.isPrefixOf, hminus.symm, heq.symm]

theorem mark?_not {c : Char} (heq : c ≠ '=') (rest : List Char) :
    mark? ('!' :: c :: rest) = some ['!'] := by
  simp [mark?, marks, List.isPrefixOf, heq.symm]

/-- The first character of a numeral, or of a name that stands for a value. -/
theorem head_literal {v : Num} (h : v.isNegative = false) :
    ∃ c, v.literal.toList.head? = some c ∧ c ≠ '=' ∧ c ≠ '-' := by
  have hliteral := Num.literal_of_nonneg h
  cases hname : v.named? with
  | some name =>
    rw [hname] at hliteral
    obtain ⟨htext, hmem⟩ := hliteral
    rw [htext]
    simp only [List.mem_cons, List.not_mem_nil, or_false] at hmem
    rcases hmem with rfl | rfl
    · exact ⟨'N', rfl, by decide⟩
    · exact ⟨'I', rfl, by decide⟩
  | none =>
    rw [hname] at hliteral
    obtain ⟨d, ds, hd, hdigit⟩ := hliteral.exists_digit
    refine ⟨d, congrArg List.head? hd, ?_, ?_⟩
    · rintro rfl
      cases hdigit
    · rintro rfl
      cases hdigit

theorem Lexes.magnitude {v : Num} (h : v.isNegative = false) (hrest : Delimited rest) :
    Lexes A (v.literal.toList ++ rest) [magnitudeTok v] rest := by
  have hliteral := Num.literal_of_nonneg h
  unfold magnitudeTok
  cases hname : v.named? with
  | some name =>
    rw [hname] at hliteral
    obtain ⟨htext, hmem⟩ := hliteral
    rw [htext]
    simp only [List.mem_cons, List.not_mem_nil, or_false] at hmem
    rcases hmem with rfl | rfl
    · exact .letters (by decide) rfl (Num.forall_mem_of_all rfl) hrest
    · exact .letters (by decide) rfl (Num.forall_mem_of_all rfl) hrest
  | none =>
    rw [hname] at hliteral
    exact .numeral hliteral hrest

theorem Lexes.number (v : Num) (hrest : Delimited rest) :
    Lexes A (v.literal.toList ++ rest) (Expr.number v).toks rest := by
  rw [Expr.toks]
  split
  · next hneg =>
    have hpos := Num.isNegative_neg hneg
    obtain ⟨c, hhead, hequal, hminus⟩ := head_literal hpos
    obtain ⟨tail, htext⟩ := List.head?_eq_some_iff.mp hhead
    have hmagnitude : Lexes A (v.neg.literal.toList ++ rest) _ rest := .magnitude hpos hrest
    have hmark : mark? ('-' :: (v.neg.literal.toList ++ rest)) = some ['-'] := by
      rw [htext]
      exact mark?_minus hminus hequal _
    rw [Num.literal_of_isNegative hneg]
    exact .punct rfl hmark hmagnitude
  · next hpos => exact .magnitude (by simpa using hpos) hrest

end Script

/-- An expression begins with a minus sign if it is a negative number, and never with an
equals sign. -/
theorem Expr.head_text {A : Alphabet} (e : Expr) (h : e.isPlain A = true) :
    ∃ c, e.text.toList.head? = some c ∧ c ≠ '=' ∧ (c = '-' ↔ e.isNegative = true) := by
  have hname : ∀ n : Name, A.isIdentifier n.base = true →
      ∃ c, n.text.toList.head? = some c ∧ c ≠ '=' ∧ c ≠ '-' := by
    intro n hn
    obtain ⟨c, tail, hbase, hc, -⟩ := A.exists_of_isIdentifier hn
    refine ⟨c, by rw [Name.toList_text, hbase]; rfl, ?_, ?_⟩
    · rintro rfl
      rw [A.starts_ascii '=' (by decide)] at hc
      cases hc
    · rintro rfl
      rw [A.starts_ascii '-' (by decide)] at hc
      cases hc
  cases e with
  | bool value =>
    cases value
    · exact ⟨'f', rfl, by decide⟩
    · exact ⟨'t', rfl, by decide⟩
  | number v =>
    rcases hv : v.isNegative with _ | _
    · obtain ⟨c, hhead, hequal, hminus⟩ := head_literal hv
      exact ⟨c, hhead, hequal, by simp [hminus, Expr.isNegative, hv]⟩
    · refine ⟨'-', ?_, by decide, by simp [Expr.isNegative, hv]⟩
      rw [Expr.text, Num.literal_of_isNegative hv]
      rfl
  | name n =>
    obtain ⟨c, hhead, hequal, hminus⟩ := hname n h
    exact ⟨c, hhead, hequal, by simp [hminus, Expr.isNegative]⟩
  | call callee args =>
    rw [Expr.isPlain, Bool.and_eq_true] at h
    obtain ⟨c, hhead, hequal, hminus⟩ := hname callee h.1
    exact ⟨c, by simp [Expr.text, hhead], hequal, by simp [hminus, Expr.isNegative]⟩
  | index array index =>
    rw [Expr.isPlain, Bool.and_eq_true, Bool.and_eq_true] at h
    obtain ⟨c, hhead, hequal, hminus⟩ := array.head_text h.1.2
    refine ⟨c, by simp [Expr.text, hhead], hequal, ?_⟩
    rw [hminus]
    cases array with
    | number v => cases h.1.1
    | _ => exact Iff.rfl
  | string value => exact ⟨'"', by simp [Expr.text], by simp [Expr.isNegative]⟩
  | array elements => exact ⟨'[', by simp [Expr.text], by simp [Expr.isNegative]⟩
  | unary _ _ | binary _ _ _ | conditional _ _ _ =>
    exact ⟨'(', by simp [Expr.text], by simp [Expr.isNegative]⟩
  | blank => cases h

theorem Expr.startsWithMinus_text {A : Alphabet} {e : Expr} (h : e.isPlain A = true) :
    startsWithMinus e.text = e.isNegative := by
  obtain ⟨c, hhead, -, hminus⟩ := e.head_text h
  rw [startsWithMinus, hhead, Bool.eq_iff_iff, ← hminus]
  simp

/-- A sign and its operand do not run together. -/
theorem lexes_signed {A : Alphabet} {op : Op} (hop : unaryOps.contains op = true) {operand : Expr}
    (hoperand : operand.isPlain A = true) {toks : List Tok} {rest left : List Char}
    (h : Lexes A (operand.text.toList ++ rest) toks left) :
    Lexes A (op.text.toList ++ ((signedOperand operand.text).toList ++ rest))
      (.mark op.text.toList :: toks) left := by
  have hsign : ∀ {c : Char} {later : List Char}, c ≠ '-' → c ≠ '=' →
      Lexes A (c :: later) toks left →
      Lexes A (op.text.toList ++ c :: later) (.mark op.text.toList :: toks) left := by
    intro c later hminus hequal hlater
    cases op with
    | sub => exact .punct rfl (mark?_minus hminus hequal later) hlater
    | not => exact .punct rfl (mark?_not hequal later) hlater
    | _ => exact absurd hop (by simp [unaryOps])
  rw [signedOperand, Expr.startsWithMinus_text hoperand]
  obtain ⟨c, hhead, hequal, hminus⟩ := operand.head_text hoperand
  split
  · rw [String.toList_append]
    exact hsign (by decide) (by decide) (.blank h)
  · next hpos =>
    obtain ⟨tail, htext⟩ := List.head?_eq_some_iff.mp hhead
    rw [htext] at h ⊢
    exact hsign (fun hc => hpos (hminus.mp hc)) hequal h

theorem lexes_operator {A : Alphabet} {op : Op} (hop : binaryOps.contains op = true)
    {toks : List Tok} {rest left : List Char} (h : Lexes A rest toks left) :
    Lexes A ((operatorText op).toList ++ ' ' :: rest) (.mark (operatorText op).toList :: toks)
      left := by
  have hmark : Lexes A ((operatorText op).toList ++ ' ' :: rest)
      [.mark (operatorText op).toList] (' ' :: rest) := by
    cases op with
    | not => exact absurd hop (by decide)
    | other text => exact absurd hop (by simp [binaryOps])
    | _ => exact .mark rfl rfl
  exact hmark.trans (.blank h)

/-- The text of an expression is cut into its tokens wherever a delimiter follows. -/
def Expr.Lexed (A : Alphabet) (e : Expr) : Prop :=
  ∀ rest, Delimited rest → Lexes A (e.text.toList ++ rest) e.toks rest

section

variable {A : Alphabet} {e : Expr} {toks : List Tok} {c : Char} {rest left : List Char}

/-- A text goes on behind an expression. -/
theorem Expr.Lexed.append (h : e.Lexed A) (hc : c ∈ [' ', '(', ')', '[', ']', ','])
    (hrest : Lexes A (c :: rest) toks left) :
    Lexes A (e.text.toList ++ c :: rest) (e.toks ++ toks) left :=
  (h (c :: rest) (.cons hc rest)).trans hrest

theorem Expr.Lexed.leftOperand (h : e.Lexed A) (he : e.isPlain A = true) (op : Op)
    (hrest : Lexes A (' ' :: rest) toks left) :
    Lexes A ((Js.leftOperand op e.text).toList ++ ' ' :: rest)
      (leftToks op e.isNegative e.toks ++ toks) left := by
  rw [Js.leftOperand, leftToks, Expr.startsWithMinus_text he]
  split
  · have htext : ("(" ++ e.text ++ ")").toList ++ ' ' :: rest =
        '(' :: (e.text.toList ++ ')' :: ' ' :: rest) := by simp
    rw [htext, List.cons_append, List.append_assoc]
    refine .punct rfl rfl (h.append (by decide) ?_)
    exact .punct rfl rfl hrest
  · exact h.append (by decide) hrest

theorem lexes_items {es : List Expr} (h : ∀ e ∈ es, e.Lexed A)
    (hc : c ∈ [' ', '(', ')', '[', ']', ',']) (hrest : Lexes A (c :: rest) toks left) :
    Lexes A ((",".intercalate (texts es)).toList ++ c :: rest) (itemToks es ++ toks) left := by
  induction es with
  | nil => exact hrest
  | cons e es ih =>
    rw [List.forall_mem_cons] at h
    cases es with
    | nil => simpa [texts, itemToks] using h.1.append hc hrest
    | cons e' es =>
      have htext : (",".intercalate (texts (e :: e' :: es))).toList ++ c :: rest =
          e.text.toList ++ ',' :: ((",".intercalate (texts (e' :: es))).toList ++ c :: rest) := by
        rw [texts, texts, String.intercalate_cons_cons]
        simp
      rw [htext, itemToks, List.append_assoc]
      · refine h.1.append (by decide) ?_
        exact .punct rfl rfl (ih h.2)
      · simp

end

mutual

theorem Expr.lexed {A : Alphabet} (e : Expr) (h : e.isPlain A = true) : e.Lexed A := by
  intro rest hrest
  -- the closing mark of a bracketed expression ends it
  have hend : ∀ {c : Char}, startsMark c = true → mark? (c :: rest) = some [c] →
      Lexes A (c :: rest) [.mark [c]] rest := fun hc hmark => .punct hc hmark (.refl A rest)
  cases e with
  | bool value =>
    cases value
    · exact .letters (by decide) rfl (Num.forall_mem_of_all rfl) hrest
    · exact .letters (by decide) rfl (Num.forall_mem_of_all rfl) hrest
  | number v => exact .number v hrest
  | string value =>
    have htext : (Expr.string value).text.toList ++ rest =
        '"' :: (value.toList.flatMap escapeChar ++ '"' :: rest) := by
      simp [Expr.text, escape]
    rw [htext]
    exact .string value.toList rest
  | name n => exact .name h hrest
  | unary op operand =>
    rw [Expr.isPlain, Bool.and_eq_true] at h
    have htext : (Expr.unary op operand).text.toList ++ rest =
        '(' :: (op.text.toList ++ ((signedOperand operand.text).toList ++ ')' :: rest)) := by
      simp [Expr.text]
    rw [htext]
    refine .punct rfl rfl (lexes_signed h.1 h.2 ?_)
    exact (operand.lexed h.2).append (by decide) (hend rfl rfl)
  | binary op left right =>
    rw [Expr.isPlain, Bool.and_eq_true, Bool.and_eq_true] at h
    obtain ⟨⟨hop, hleft⟩, hright⟩ := h
    have htext : (Expr.binary op left right).text.toList ++ rest =
        '(' :: ((leftOperand op left.text).toList ++ ' ' :: ((operatorText op).toList ++ ' ' ::
          (right.text.toList ++ ')' :: rest))) := by
      simp [Expr.text]
    rw [htext]
    refine .punct rfl rfl ((left.lexed hleft).leftOperand hleft op ?_)
    refine .blank (lexes_operator hop ?_)
    exact (right.lexed hright).append (by decide) (hend rfl rfl)
  | conditional test consequent alternate =>
    rw [Expr.isPlain, Bool.and_eq_true, Bool.and_eq_true] at h
    obtain ⟨⟨htest, hconsequent⟩, halternate⟩ := h
    have htext : (Expr.conditional test consequent alternate).text.toList ++ rest =
        '(' :: (test.text.toList ++ ' ' :: '?' :: ' ' :: (consequent.text.toList ++
          ' ' :: ':' :: ' ' :: (alternate.text.toList ++ ')' :: rest))) := by
      simp [Expr.text]
    rw [htext]
    refine .punct rfl rfl ((test.lexed htest).append (by decide) ?_)
    refine .blank (.punct rfl rfl (.blank ?_))
    refine (consequent.lexed hconsequent).append (by decide) ?_
    refine .blank (.punct rfl rfl (.blank ?_))
    exact (alternate.lexed halternate).append (by decide) (hend rfl rfl)
  | call callee args =>
    rw [Expr.isPlain, Bool.and_eq_true] at h
    have htext : (Expr.call callee args).text.toList ++ rest =
        callee.text.toList ++ '(' :: ((",".intercalate (texts args)).toList ++ ')' :: rest) := by
      simp [Expr.text]
    rw [htext]
    refine Lexes.trans (.name h.1 (.cons (by decide) _)) (.punct rfl rfl ?_)
    exact lexes_items (lexed_of_mem args h.2) (by decide) (hend rfl rfl)
  | array elements =>
    rw [Expr.isPlain] at h
    have htext : (Expr.array elements).text.toList ++ rest =
        '[' :: ((",".intercalate (texts elements)).toList ++ ']' :: rest) := by
      simp [Expr.text]
    rw [htext]
    refine .punct rfl rfl ?_
    exact lexes_items (lexed_of_mem elements h) (by decide) (hend rfl rfl)
  | index array index =>
    rw [Expr.isPlain, Bool.and_eq_true, Bool.and_eq_true] at h
    have htext : (Expr.index array index).text.toList ++ rest =
        array.text.toList ++ '[' :: (index.text.toList ++ ']' :: rest) := by
      simp [Expr.text]
    rw [htext]
    refine (array.lexed h.1.2).append (by decide) (.punct rfl rfl ?_)
    exact (index.lexed h.2).append (by decide) (hend rfl rfl)
  | blank => cases h

theorem lexed_of_mem {A : Alphabet} (es : List Expr) (h : allPlain A es = true) :
    ∀ e ∈ es, e.Lexed A := by
  cases es with
  | nil => simp
  | cons e rest =>
    rw [allPlain, Bool.and_eq_true] at h
    rw [List.forall_mem_cons]
    exact ⟨e.lexed h.1, lexed_of_mem rest h.2⟩

end

end Squishc.Js
