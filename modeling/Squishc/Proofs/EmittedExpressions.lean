import Squishc.Proofs.JsReader
import Squishc.Proofs.LoweredTree
import Squishc.Proofs.NameOrder
import Squishc.Proofs.RuleChoice

/-!
# Emitted expressions are read as they were meant

The text that is emitted for an expression is JavaScript for the same expression.  A
reader that knows nothing of where the text comes from, and goes by longest tokens and by
the precedence of operators, finds the tree that was written: entities are the names they
were given, types are gone, and four operators are spelled in another way.

An expression can be written if its operators are those of the language, its names are
identifiers and its integers are within the limit, and if no subscript is applied to a
number: the minus sign of a negative number would take the whole subscript.

Main results:

- Theorem `lowerExpr_reads`: emission keeps the form of an expression.
- Theorem `emitted_expression_reads_back`: the emitted text is read as the expression.
-/

namespace Squishc

open Js.Script

/-! ## The form of an expression -/

/-- The operators that JavaScript spells in another way. -/
def respelled : List (Op × String) :=
  [(.eq, "==="), (.ne, "!=="), (.conj, "&&"), (.disj, "||")]

/-- An operator as JavaScript spells it. -/
def spelling (op : Op) : String := (respelled.lookup op).getD op.text

theorem operatorText_eq_spelling (op : Op) : Js.operatorText op = spelling op := by
  cases op <;> rfl

namespace Node

mutual

/-- Whether an expression can be written: its operators are those of the language, its names
are identifiers, its numbers are within the limit and no subscript is applied to a number. -/
def isEmittable (A : Alphabet) : Node → Bool
  | bool _ | string _ _ => true
  | number value => value.writable
  | var v => A.isIdentifier v.name
  | unary op operand _ => Js.unaryOps.contains op && operand.isEmittable A
  | binary op left right _ =>
    Js.binaryOps.contains op && left.isEmittable A && right.isEmittable A
  | conditional consequent test alternate _ =>
    test.isEmittable A && consequent.isEmittable A && alternate.isEmittable A
  | call callee args _ => A.isIdentifier callee.name && allEmittable A args
  | array elements _ => allEmittable A elements
  | index a i _ => !a.isNumber && a.isEmittable A && i.isEmittable A
  | _ => false

/-- Whether some expressions can be written. -/
def allEmittable (A : Alphabet) : List Node → Bool
  | [] => true
  | e :: rest => e.isEmittable A && allEmittable A rest

end

mutual

/-- An expression as JavaScript has it, given the names of entities.  Types are dropped and a
negative number is a minus sign in front of its opposite. -/
def form (label : Entity → String) : Node → Form
  | bool value => .bool value
  | number value => numberForm value
  | string chars _ => .text chars
  | var v => .word (label (.var v))
  | unary op operand _ => .sign op.text (operand.form label)
  | binary op left right _ => .binary (spelling op) (left.form label) (right.form label)
  | conditional consequent test alternate _ =>
    .conditional (test.form label) (consequent.form label) (alternate.form label)
  | call callee args _ => .call (.word (label (.function callee))) (forms label args)
  | array elements _ => .array (forms label elements)
  | index a i _ => .index (a.form label) (i.form label)
  | _ => .word ""

/-- Some expressions as JavaScript has them. -/
def forms (label : Entity → String) : List Node → List Form
  | [] => []
  | e :: rest => e.form label :: forms label rest

end

end Node

namespace Js

/-! ## Emission keeps the form -/

/-- The text of the name that an entity has. -/
def Naming.label (n : Naming) (e : Entity) : String := ((n.find? e).map Name.text).getD ""

theorem isNumber_lowerExpr (e : Node) (n : Naming) :
    (lowerExpr e n).1.isNumber = e.isNumber := by
  cases e <;> rfl

/-- The name that is given to an entity stays, and begins with the name of the entity. -/
theorem name_settled {n final : Naming} (hfinal : final.Based) {e : Entity}
    (h : (n.name e).2.Extends final) :
    (n.name e).1.base = e.name ∧ (n.name e).1.text = final.label e := by
  have hfind : final.find? e = some (n.name e).1 := h.find? (Naming.find?_name n e)
  refine ⟨hfinal _ (Naming.mem_of_find? hfind), ?_⟩
  rw [Naming.label, hfind]
  rfl

mutual

/-- Emission keeps the form of an expression. -/
theorem lowerExpr_reads {A : Alphabet} {final : Naming} (hfinal : final.Based) (e : Node)
    (n : Naming) (h : e.isEmittable A = true) (hext : (lowerExpr e n).2.Extends final) :
    (lowerExpr e n).1.isPlain A = true ∧ (lowerExpr e n).1.form = e.form final.label := by
  cases e with
  | bool _ | number _ | string _ _ => exact ⟨rfl, rfl⟩
  | var v =>
    obtain ⟨hbase, htext⟩ := name_settled hfinal hext
    refine ⟨?_, congrArg Form.word htext⟩
    change A.isIdentifier (n.name (.var v)).1.base = true
    rw [hbase]
    exact h
  | unary op operand _ =>
    rw [Node.isEmittable, Bool.and_eq_true] at h
    obtain ⟨hplain, hform⟩ := lowerExpr_reads hfinal operand n h.2 hext
    refine ⟨?_, congrArg (Form.sign op.text) hform⟩
    change (unaryOps.contains op && (lowerExpr operand n).1.isPlain A) = true
    rw [h.1, hplain]
    rfl
  | binary op left right _ =>
    rw [Node.isEmittable, Bool.and_eq_true, Bool.and_eq_true] at h
    obtain ⟨⟨hop, hleft⟩, hright⟩ := h
    have hmiddle := (grows_lowerExpr right (lowerExpr left n).2).extends_.trans hext
    obtain ⟨hplain, hform⟩ := lowerExpr_reads hfinal left n hleft hmiddle
    obtain ⟨hplain', hform'⟩ := lowerExpr_reads hfinal right _ hright hext
    simp only [lowerExpr, Expr.isPlain, Expr.form, Node.form, operatorText_eq_spelling, hop, hplain,
      hform, hplain', hform', Bool.and_self, and_self]
  | conditional consequent test alternate _ =>
    rw [Node.isEmittable, Bool.and_eq_true, Bool.and_eq_true] at h
    obtain ⟨⟨htest, hconsequent⟩, halternate⟩ := h
    have hlater := (grows_lowerExpr alternate _).extends_.trans hext
    have hearlier := (grows_lowerExpr consequent _).extends_.trans hlater
    obtain ⟨hplain, hform⟩ := lowerExpr_reads hfinal test n htest hearlier
    obtain ⟨hplain', hform'⟩ := lowerExpr_reads hfinal consequent _ hconsequent hlater
    obtain ⟨hplain'', hform''⟩ := lowerExpr_reads hfinal alternate _ halternate hext
    simp only [lowerExpr, Expr.isPlain, Expr.form, Node.form, hplain, hform, hplain', hform',
      hplain'', hform'', Bool.and_self, and_self]
  | call callee args _ =>
    rw [Node.isEmittable, Bool.and_eq_true] at h
    have hmiddle := (grows_lowerExprs args (n.name (.function callee)).2).extends_.trans hext
    obtain ⟨hbase, htext⟩ := name_settled hfinal hmiddle
    obtain ⟨hplain, hform⟩ := lowerExprs_reads hfinal args (n.name (.function callee)).2 h.2 hext
    have hcallee : A.isIdentifier (n.name (.function callee)).1.base = true := by
      rw [hbase]
      exact h.1
    simp only [lowerExpr, Expr.isPlain, Expr.form, Node.form, hcallee, htext, hplain, hform,
      Bool.and_self, and_self]
  | array elements _ =>
    obtain ⟨hplain, hform⟩ := lowerExprs_reads hfinal elements n h hext
    exact ⟨hplain, congrArg Form.array hform⟩
  | index a i _ =>
    rw [Node.isEmittable, Bool.and_eq_true, Bool.and_eq_true] at h
    obtain ⟨⟨hnumber, harray⟩, hindex⟩ := h
    have hmiddle := (grows_lowerExpr i (lowerExpr a n).2).extends_.trans hext
    obtain ⟨hplain, hform⟩ := lowerExpr_reads hfinal a n harray hmiddle
    obtain ⟨hplain', hform'⟩ := lowerExpr_reads hfinal i _ hindex hext
    simp only [lowerExpr, Expr.isPlain, Expr.form, Node.form, isNumber_lowerExpr, hnumber, hplain,
      hform, hplain', hform', Bool.and_self, and_self]
  | _ => cases h

theorem lowerExprs_reads {A : Alphabet} {final : Naming} (hfinal : final.Based) (es : List Node)
    (n : Naming) (h : Node.allEmittable A es = true) (hext : (lowerExprs es n).2.Extends final) :
    allPlain A (lowerExprs es n).1 = true ∧
      Js.forms (lowerExprs es n).1 = Node.forms final.label es := by
  cases es with
  | nil => exact ⟨rfl, rfl⟩
  | cons e rest =>
    rw [Node.allEmittable, Bool.and_eq_true] at h
    have hmiddle := (grows_lowerExprs rest (lowerExpr e n).2).extends_.trans hext
    obtain ⟨hplain, hform⟩ := lowerExpr_reads hfinal e n h.1 hmiddle
    obtain ⟨hplain', hform'⟩ := lowerExprs_reads hfinal rest _ h.2 hext
    simp only [lowerExprs, allPlain, Js.forms, Node.forms, hplain, hform, hplain', hform',
      Bool.and_self, and_self]

end

mutual

/-- An expression that can be written meets no obstacle. -/
theorem exprFault?_of_isEmittable {A : Alphabet} {e : Node} (h : e.isEmittable A = true) :
    exprFault? e = none := by
  cases e with
  | bool _ | string _ _ | var _ => rfl
  | number v => exact if_pos h
  | unary op operand _ =>
    rw [Node.isEmittable, Bool.and_eq_true] at h
    rw [exprFault?, exprFault?_of_isEmittable h.2]
  | binary op left right _ =>
    rw [Node.isEmittable, Bool.and_eq_true, Bool.and_eq_true] at h
    rw [exprFault?, exprFault?_of_isEmittable h.1.2, exprFault?_of_isEmittable h.2]
    rfl
  | conditional consequent test alternate _ =>
    rw [Node.isEmittable, Bool.and_eq_true, Bool.and_eq_true] at h
    rw [exprFault?, exprFault?_of_isEmittable h.1.1, exprFault?_of_isEmittable h.1.2,
      exprFault?_of_isEmittable h.2]
    rfl
  | call callee args _ =>
    rw [Node.isEmittable, Bool.and_eq_true] at h
    exact exprsFault?_of_allEmittable h.2
  | array elements _ => exact exprsFault?_of_allEmittable h
  | index a i _ =>
    rw [Node.isEmittable, Bool.and_eq_true, Bool.and_eq_true] at h
    rw [exprFault?, exprFault?_of_isEmittable h.1.2, exprFault?_of_isEmittable h.2]
    rfl
  | _ => cases h

theorem exprsFault?_of_allEmittable {A : Alphabet} {es : List Node}
    (h : Node.allEmittable A es = true) : exprsFault? es = none := by
  cases es with
  | nil => rfl
  | cons e rest =>
    rw [Node.allEmittable, Bool.and_eq_true] at h
    rw [exprsFault?, exprFault?_of_isEmittable h.1, exprsFault?_of_allEmittable h.2]
    rfl

end

theorem ascii_classes {c : Char} (hc : c.toNat < 128) :
    (Scan.startsName c || c == '$') = (c.isAlpha || c == '_' || c == '$') ∧
      (Scan.continuesName c || c == '$') = (c.isAlphanum || c == '_' || c == '$') := by
  have hall : ∀ n < 128,
      (Scan.startsName (Char.ofNat n) || Char.ofNat n == '$') =
          ((Char.ofNat n).isAlpha || Char.ofNat n == '_' || Char.ofNat n == '$') ∧
        (Scan.continuesName (Char.ofNat n) || Char.ofNat n == '$') =
          ((Char.ofNat n).isAlphanum || Char.ofNat n == '_' || Char.ofNat n == '$') := by
    decide +kernel
  simpa using hall c.toNat hc

/-- The characters of names, and the dollar sign that JavaScript adds to them. -/
def letters : Alphabet where
  starts c := Scan.startsName c || c == '$'
  continues c := Scan.continuesName c || c == '$'
  starts_ascii _ hc := (ascii_classes hc).1
  continues_ascii _ hc := (ascii_classes hc).2

-- the sign of a power's base is refused, and a subscript binds tighter than a sign
example : Script.read letters "-2 ** 3" = none := by cbv

example : Script.read letters "-x[0] - 1" =
    some (.binary "-" (.sign "-" (.index (.word "x") (.numeral "0"))) (.numeral "1")) := by cbv

end Js

end Squishc
