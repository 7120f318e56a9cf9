import Mathlib.Logic.Equiv.Basic
import Squishc.Proofs.ClosedPipeline
import Squishc.Proofs.RenamedEmission

/-!
# The text of a renamed program

The text of a program is laid out in pieces here, each of which is the name of an
entity or some characters that do not depend on names.  The names of limits and of
the helper are of the latter kind.

Names do decide one thing about the rest of the text: an operand that begins with a
minus sign is kept apart from a sign before it.  No identifier begins with one, so a
renaming has to leave alone whether a name does.

Main results:

- Theorem `programText_eq` and theorem `programPieces_rename`: the text of a renamed
  program is the same row of pieces with other names.
- Theorem `renaming_changes_names_only`: a renamed program goes through resolution,
  the optimizer and emission like the program itself.
-/

namespace Squishc

namespace Js

/-! ## Pieces -/

/-- A part of the text of a program: characters that do not depend on names, or the
name of an entity. -/
inductive Piece where
  | chars (s : String)
  | name (n : Name)

/-- The text of a piece. -/
def Piece.text : Piece → String
  | chars s => s
  | name n => n.text

/-- A piece with another name. -/
def Piece.rename (r : String → String) : Piece → Piece
  | chars s => chars s
  | name n => name (n.rename r)

/-- The text of some pieces, one after another. -/
def joined (pieces : List Piece) : String := String.join (pieces.map Piece.text)

/-- Characters as the only piece. -/
def plain (s : String) : List Piece := [.chars s]

/-- A name as the only piece. -/
def named (n : Name) : List Piece := [.name n]

@[simp] theorem joined_plain (s : String) : joined (plain s) = s := by
  simp [joined, plain, Piece.text]

@[simp] theorem joined_named (n : Name) : joined (named n) = n.text := by
  simp [joined, named, Piece.text]

@[simp] theorem joined_append (ps qs : List Piece) :
    joined (ps ++ qs) = joined ps ++ joined qs := by
  simp [joined, String.join_append]

@[simp] theorem joined_intercalate (s : String) (pieces : List (List Piece)) :
    joined ((plain s).intercalate pieces) = s.intercalate (pieces.map joined) := by
  induction pieces with
  | nil => rfl
  | cons p rest ih =>
    cases rest with
    | nil => simp
    | cons q rest =>
      rw [List.intercalate_cons_cons, joined_append, joined_append, ih, joined_plain]
      exact String.intercalate_cons_cons.symm

/-- The operand of a sign in pieces, given its text. -/
def signedPieces (text : String) (pieces : List Piece) : List Piece :=
  if startsWithMinus text then plain " " ++ pieces else pieces

/-- The left operand of an operator in pieces, given its text. -/
def leftPieces (op : Op) (text : String) (pieces : List Piece) : List Piece :=
  if op = .pow && startsWithMinus text then plain "(" ++ pieces ++ plain ")" else pieces

mutual

/-- The text of an expression in pieces. -/
def Expr.pieces : Expr → List Piece
  | .bool value => plain (Expr.bool value).text
  | .number value => plain (Expr.number value).text
  | .string value => plain (Expr.string value).text
  | .name n => named n
  | .unary op operand =>
    plain "(" ++ plain op.text ++ signedPieces operand.text operand.pieces ++ plain ")"
  | .binary op left right =>
    plain "(" ++ leftPieces op left.text left.pieces ++ plain " " ++ plain (operatorText op) ++
      plain " " ++ right.pieces ++ plain ")"
  | .conditional test consequent alternate =>
    plain "(" ++ test.pieces ++ plain " ? " ++ consequent.pieces ++ plain " : " ++
      alternate.pieces ++ plain ")"
  | .call callee args =>
    named callee ++ plain "(" ++ (plain ",").intercalate (exprsPieces args) ++ plain ")"
  | .array elements => plain "[" ++ (plain ",").intercalate (exprsPieces elements) ++ plain "]"
  | .index array index => array.pieces ++ plain "[" ++ index.pieces ++ plain "]"
  | .blank => []

/-- The texts of some expressions in pieces. -/
def exprsPieces : List Expr → List (List Piece)
  | [] => []
  | e :: rest => e.pieces :: exprsPieces rest

end

/-- The texts of some names in pieces, with commas between them. -/
def nameListPieces (names : List Name) : List Piece := (plain ", ").intercalate (names.map named)

/-- The line that opens a block behind a header, in pieces. -/
def openingPieces (header : List Piece) : List Piece := header ++ plain " \x7b"

/-- The header of a branch in pieces. -/
def branchPieces (test : Expr) : List Piece :=
  openingPieces (plain "if (" ++ test.pieces ++ plain ")")

/-- The header of a loop that counts up to a literal, in pieces. -/
def countUpPieces (counter : Name) (bound : Expr) : List Piece :=
  openingPieces (plain "for (let " ++ named counter ++ plain " = 0; " ++ named counter ++
    plain " < " ++ bound.pieces ++ plain "; " ++ named counter ++ plain "++)")

/-- The header of a loop that counts up to a limit, in pieces.  The limit is no
entity. -/
def countToPieces (counter limit : Name) (bound : Expr) : List Piece :=
  openingPieces (plain "for (let " ++ named counter ++ plain " = 0, " ++ plain limit.text ++
    plain " = " ++ bound.pieces ++ plain "; " ++ named counter ++ plain " < " ++
    plain limit.text ++ plain "; " ++ named counter ++ plain "++)")

/-- The header of a loop over a collection in pieces. -/
def forOfPieces (item : Name) (collection : Expr) (helped : Bool) : List Piece :=
  let items := if helped then plain "_iter(" ++ collection.pieces ++ plain ")"
    else collection.pieces
  openingPieces (plain "for (const " ++ named item ++ plain " of " ++ items ++ plain ")")

/-- The header of a function in pieces. -/
def functionPieces (bound : Bool) (name : Name) (params : List Name) : List Piece :=
  if bound then
    openingPieces (plain "var " ++ named name ++ plain " = function (" ++ nameListPieces params ++
      plain ")")
  else
    openingPieces (plain "function " ++ named name ++ plain "(" ++ nameListPieces params ++
      plain ")")

mutual

/-- The lines of a statement in pieces. -/
def Stmt.pieces : Stmt → List (List Piece)
  | .log argument => [plain "console.log(" ++ argument.pieces ++ plain ");"]
  | .declare binder name initializer =>
    [plain binder.text ++ plain " " ++ named name ++ plain " = " ++ initializer.pieces ++
      plain ";"]
  | .assign target source => [named target ++ plain " = " ++ source.pieces ++ plain ";"]
  | .branch test body rest => branchPieces test :: stmtsPieces body ++ rest.pieces
  | .whileLoop test body =>
    openingPieces (plain "while (" ++ test.pieces ++ plain ")") :: stmtsPieces body ++
      [plain closing]
  | .countUp counter bound body =>
    countUpPieces counter bound :: stmtsPieces body ++ [plain closing]
  | .countTo counter limit bound body =>
    countToPieces counter limit bound :: stmtsPieces body ++ [plain closing]
  | .forOf item collection helped body =>
    forOfPieces item collection helped :: stmtsPieces body ++ [plain closing]
  | .function bound name params body =>
    functionPieces bound name params :: stmtsPieces body ++
      [plain (if bound then closing ++ ";" else closing)]
  | .call callee args => [(Expr.call callee args).pieces ++ plain ";"]
  | .exit => [plain "break;"]
  | .ret expression => [plain "return " ++ expression.pieces ++ plain ";"]
  | .shortRet => [plain "return;"]

/-- The lines behind the body of a branch in pieces. -/
def Else.pieces : Else → List (List Piece)
  | .absent => [plain closing]
  | .body body => plain (opening (closing ++ " else")) :: stmtsPieces body ++ [plain closing]
  | .branch test body rest =>
    plain (closing ++ " else") :: branchPieces test :: stmtsPieces body ++ rest.pieces

/-- The lines of some statements in pieces. -/
def stmtsPieces : List Stmt → List (List Piece)
  | [] => []
  | s :: rest => s.pieces ++ stmtsPieces rest

end

/-- The text of a program in pieces. -/
def programPieces (program : List Stmt) : List Piece :=
  (plain "\n").intercalate (stmtsPieces program ++
    (if anyNeedsHelper program then helperLines.map plain else []))

/-! ## The pieces make up the text -/

theorem signedOperand_eq {text : String} {pieces : List Piece} (h : text = joined pieces) :
    signedOperand text = joined (signedPieces text pieces) := by
  rw [signedOperand, signedPieces]
  split_ifs
  · rw [joined_append, ← h, joined_plain]
  · exact h

theorem leftOperand_eq (op : Op) {text : String} {pieces : List Piece} (h : text = joined pieces) :
    leftOperand op text = joined (leftPieces op text pieces) := by
  rw [leftOperand, leftPieces]
  split_ifs
  · simp only [joined_append, joined_plain, ← h]
  · exact h

mutual

theorem Expr.text_eq : ∀ e : Expr, e.text = joined e.pieces
  | .bool _ | .number _ | .string _ => by rw [Expr.pieces, joined_plain]
  | .name _ => by rw [Expr.pieces, joined_named, Expr.text]
  | .blank => rfl
  | .unary op operand => by
    simp only [Expr.text, Expr.pieces, joined_append, joined_plain,
      signedOperand_eq operand.text_eq]
  | .binary op left right => by
    simp only [Expr.text, Expr.pieces, joined_append, joined_plain,
      leftOperand_eq op left.text_eq, right.text_eq]
  | .conditional test consequent alternate => by
    simp only [Expr.text, Expr.pieces, joined_append, joined_plain, test.text_eq,
      consequent.text_eq, alternate.text_eq]
  | .call callee args => by
    simp only [Expr.text, Expr.pieces, joined_append, joined_plain, joined_named,
      joined_intercalate, texts_eq args]
  | .array elements => by
    simp only [Expr.text, Expr.pieces, joined_append, joined_plain, joined_intercalate,
      texts_eq elements]
  | .index array index => by
    simp only [Expr.text, Expr.pieces, joined_append, joined_plain, array.text_eq, index.text_eq]

theorem texts_eq : ∀ es : List Expr, texts es = (exprsPieces es).map joined
  | [] => rfl
  | e :: rest => by rw [texts, exprsPieces, List.map_cons, e.text_eq, texts_eq rest]

end

theorem nameList_eq (names : List Name) : nameList names = joined (nameListPieces names) := by
  simp [nameList, nameListPieces, Function.comp_def]

theorem opening_eq {header : String} {pieces : List Piece} (h : header = joined pieces) :
    opening header = joined (openingPieces pieces) := by
  rw [openingPieces, joined_append, joined_plain, ← h, opening]

theorem branchHeader_eq (test : Expr) : branchHeader test = joined (branchPieces test) :=
  opening_eq (by simp only [joined_append, joined_plain, test.text_eq])

theorem countUpHeader_eq (counter : Name) (bound : Expr) :
    countUpHeader counter bound = joined (countUpPieces counter bound) :=
  opening_eq (by simp only [joined_append, joined_plain, joined_named, bound.text_eq])

theorem countToHeader_eq (counter limit : Name) (bound : Expr) :
    countToHeader counter limit bound = joined (countToPieces counter limit bound) :=
  opening_eq (by simp only [joined_append, joined_plain, joined_named, bound.text_eq])

theorem forOfHeader_eq (item : Name) (collection : Expr) (helped : Bool) :
    forOfHeader item collection helped = joined (forOfPieces item collection helped) := by
  have hitems : (if helped then "_iter(" ++ collection.text ++ ")" else collection.text) =
      joined (if helped then plain "_iter(" ++ collection.pieces ++ plain ")"
        else collection.pieces) := by
    split_ifs
    · simp only [joined_append, joined_plain, collection.text_eq]
    · exact collection.text_eq
  exact opening_eq (by simp only [joined_append, joined_plain, joined_named, hitems])

theorem functionHeader_eq (bound : Bool) (name : Name) (params : List Name) :
    functionHeader bound name params = joined (functionPieces bound name params) := by
  cases bound
  · exact opening_eq (by simp only [joined_append, joined_plain, joined_named, nameList_eq])
  · exact opening_eq (by simp only [joined_append, joined_plain, joined_named, nameList_eq])

mutual

theorem Stmt.lines_eq : ∀ s : Stmt, s.lines = s.pieces.map joined
  | .log argument => by
    simp only [Stmt.lines, Stmt.pieces, List.map_cons, List.map_nil, joined_append, joined_plain,
      argument.text_eq]
  | .declare binder name initializer => by
    simp only [Stmt.lines, Stmt.pieces, List.map_cons, List.map_nil, joined_append, joined_plain,
      joined_named, initializer.text_eq]
  | .assign target source => by
    simp only [Stmt.lines, Stmt.pieces, List.map_cons, List.map_nil, joined_append, joined_plain,
      joined_named, source.text_eq]
  | .branch test body rest => by
    simp [Stmt.lines, Stmt.pieces, branchHeader_eq, allLines_eq body, rest.lines_eq]
  | .whileLoop test body => by
    have hheader : opening ("while (" ++ test.text ++ ")") =
        joined (openingPieces (plain "while (" ++ test.pieces ++ plain ")")) :=
      opening_eq (by simp only [joined_append, joined_plain, test.text_eq])
    simp [Stmt.lines, Stmt.pieces, hheader, allLines_eq body]
  | .countUp counter bound body => by
    simp [Stmt.lines, Stmt.pieces, countUpHeader_eq, allLines_eq body]
  | .countTo counter limit bound body => by
    simp [Stmt.lines, Stmt.pieces, countToHeader_eq, allLines_eq body]
  | .forOf item collection helped body => by
    simp [Stmt.lines, Stmt.pieces, forOfHeader_eq, allLines_eq body]
  | .function bound name params body => by
    simp [Stmt.lines, Stmt.pieces, functionHeader_eq, allLines_eq body]
  | .call callee args => by simp [Stmt.lines, Stmt.pieces, (Expr.call callee args).text_eq]
  | .exit | .shortRet => by simp [Stmt.lines, Stmt.pieces]
  | .ret expression => by
    simp only [Stmt.lines, Stmt.pieces, List.map_cons, List.map_nil, joined_append, joined_plain,
      expression.text_eq]

theorem Else.lines_eq : ∀ rest : Else, rest.lines = rest.pieces.map joined
  | .absent => by simp [Else.lines, Else.pieces]
  | .body body => by simp [Else.lines, Else.pieces, allLines_eq body]
  | .branch test body rest => by
    simp [Else.lines, Else.pieces, branchHeader_eq, allLines_eq body, rest.lines_eq]

theorem allLines_eq : ∀ ss : List Stmt, allLines ss = (stmtsPieces ss).map joined
  | [] => rfl
  | s :: rest => by
    rw [allLines, stmtsPieces, List.map_append, s.lines_eq, allLines_eq rest]

end

/-- The text of a program is its pieces, one after another. -/
theorem programText_eq (program : List Stmt) :
    programText program = joined (programPieces program) := by
  rw [programText, programLines, programPieces, joined_intercalate, List.map_append,
    allLines_eq]
  split_ifs <;> simp [Function.comp_def]

/-! ## The pieces of a renamed program -/

section

variable {r : String → String}

@[simp] theorem plain_rename (s : String) : (plain s).map (Piece.rename r) = plain s := rfl

@[simp] theorem named_rename (n : Name) : (named n).map (Piece.rename r) = named (n.rename r) := rfl

@[simp] theorem map_intercalate {α β : Type} (f : α → β) (sep : List α) (ls : List (List α)) :
    (sep.intercalate ls).map f = (sep.map f).intercalate (ls.map (List.map f)) := by
  induction ls with
  | nil => rfl
  | cons l rest ih =>
    cases rest with
    | nil => simp
    | cons k rest =>
      rw [List.intercalate_cons_cons, List.map_append, List.map_append, ih, List.map_cons,
        List.map_cons, List.map_cons, List.intercalate_cons_cons]

theorem startsWithMinus_append (a : String) {b : String} (h : startsWithMinus b = false) :
    startsWithMinus (a ++ b) = startsWithMinus a := by
  simp only [startsWithMinus, String.toList_append, List.head?_append] at h ⊢
  cases a.toList.head? with
  | none => simpa using h
  | some c => rfl

theorem startsWithMinus_name (n : Name) : startsWithMinus n.text = startsWithMinus n.base := by
  rw [Name.text, String.append_assoc]
  apply startsWithMinus_append
  simp [startsWithMinus]

theorem startsWithMinus_callee (n : Name) (args : String) :
    startsWithMinus (n.text ++ "(" ++ args ++ ")") = startsWithMinus n.base := by
  rw [String.append_assoc, String.append_assoc, startsWithMinus_append, startsWithMinus_name]
  simp [startsWithMinus]

theorem startsWithMinus_indexed (array index : String) :
    startsWithMinus (array ++ "[" ++ index ++ "]") = startsWithMinus array := by
  rw [String.append_assoc, String.append_assoc]
  apply startsWithMinus_append
  simp [startsWithMinus]

/-- A renaming that leaves alone whether a name begins with a minus sign does so for
all expressions. -/
theorem Expr.startsWithMinus_rename
    (hsign : ∀ name, startsWithMinus (r name) = startsWithMinus name) : ∀ e : Expr,
    startsWithMinus (e.rename r).text = startsWithMinus e.text
  | .name n => by
    rw [Expr.rename, Expr.text, Expr.text, startsWithMinus_name, startsWithMinus_name]
    exact hsign n.base
  | .call callee args => by
    rw [Expr.rename, Expr.text, Expr.text, startsWithMinus_callee, startsWithMinus_callee]
    exact hsign callee.base
  | .index a i => by
    rw [Expr.rename, Expr.text, Expr.text, startsWithMinus_indexed, startsWithMinus_indexed]
    exact a.startsWithMinus_rename hsign
  | .unary _ _ | .binary _ _ _ | .conditional _ _ _ | .array _ => by
    simp [Expr.rename, Expr.text, startsWithMinus]
  | .bool _ | .number _ | .string _ | .blank => rfl

mutual

theorem Expr.pieces_rename (hsign : ∀ name, startsWithMinus (r name) = startsWithMinus name) :
    ∀ e : Expr, (e.rename r).pieces = e.pieces.map (Piece.rename r)
  | .unary op operand => by
    simp only [Expr.rename, Expr.pieces, signedPieces, operand.startsWithMinus_rename hsign,
      operand.pieces_rename hsign]
    split_ifs <;> simp
  | .binary op left right => by
    simp only [Expr.rename, Expr.pieces, leftPieces, left.startsWithMinus_rename hsign,
      left.pieces_rename hsign, right.pieces_rename hsign]
    split_ifs <;> simp
  | .conditional test consequent alternate => by
    simp [Expr.rename, Expr.pieces, test.pieces_rename hsign, consequent.pieces_rename hsign,
      alternate.pieces_rename hsign]
  | .call callee args => by
    simp [Expr.rename, Expr.pieces, exprsPieces_rename hsign args]
  | .array elements => by
    simp [Expr.rename, Expr.pieces, exprsPieces_rename hsign elements]
  | .index array index => by
    simp [Expr.rename, Expr.pieces, array.pieces_rename hsign, index.pieces_rename hsign]
  | .name _ | .bool _ | .number _ | .string _ | .blank => rfl

theorem exprsPieces_rename (hsign : ∀ name, startsWithMinus (r name) = startsWithMinus name) :
    ∀ es : List Expr,
      exprsPieces (renameExprs r es) = (exprsPieces es).map (List.map (Piece.rename r))
  | [] => rfl
  | e :: rest => by
    rw [renameExprs, exprsPieces, e.pieces_rename hsign, exprsPieces_rename hsign rest,
      exprsPieces, List.map_cons]

end

theorem nameListPieces_rename (names : List Name) :
    nameListPieces (names.map (Name.rename r)) =
      (nameListPieces names).map (Piece.rename r) := by
  simp [nameListPieces, Function.comp_def]

mutual

theorem Stmt.pieces_rename (hsign : ∀ name, startsWithMinus (r name) = startsWithMinus name) :
    ∀ s : Stmt, (s.rename r).pieces = s.pieces.map (List.map (Piece.rename r))
  | .log argument => by
    simp [Stmt.rename, Stmt.pieces, argument.pieces_rename hsign]
  | .declare binder name initializer => by
    simp [Stmt.rename, Stmt.pieces, initializer.pieces_rename hsign]
  | .assign target source => by
    simp [Stmt.rename, Stmt.pieces, source.pieces_rename hsign]
  | .branch test body rest => by
    simp [Stmt.rename, Stmt.pieces, branchPieces, openingPieces, test.pieces_rename hsign,
      stmtsPieces_rename hsign body, rest.pieces_rename hsign]
  | .whileLoop test body => by
    simp [Stmt.rename, Stmt.pieces, openingPieces, test.pieces_rename hsign,
      stmtsPieces_rename hsign body]
  | .countUp counter bound body => by
    simp [Stmt.rename, Stmt.pieces, countUpPieces, openingPieces, bound.pieces_rename hsign,
      stmtsPieces_rename hsign body]
  | .countTo counter limit bound body => by
    simp [Stmt.rename, Stmt.pieces, countToPieces, openingPieces, bound.pieces_rename hsign,
      stmtsPieces_rename hsign body]
  | .forOf item collection helped body => by
    cases helped <;>
      simp [Stmt.rename, Stmt.pieces, forOfPieces, openingPieces, collection.pieces_rename hsign,
        stmtsPieces_rename hsign body]
  | .function bound name params body => by
    cases bound <;>
      simp [Stmt.rename, Stmt.pieces, functionPieces, openingPieces, nameListPieces_rename,
        stmtsPieces_rename hsign body]
  | .call callee args => by
    have hcall := (Expr.call callee args).pieces_rename hsign
    rw [Expr.rename] at hcall
    simp [Stmt.rename, Stmt.pieces, hcall]
  | .exit | .shortRet => rfl
  | .ret expression => by
    simp [Stmt.rename, Stmt.pieces, expression.pieces_rename hsign]

theorem Else.pieces_rename (hsign : ∀ name, startsWithMinus (r name) = startsWithMinus name) :
    ∀ rest : Else, (rest.rename r).pieces = rest.pieces.map (List.map (Piece.rename r))
  | .absent => rfl
  | .body body => by
    simp [Else.rename, Else.pieces, stmtsPieces_rename hsign body]
  | .branch test body rest => by
    simp [Else.rename, Else.pieces, branchPieces, openingPieces, test.pieces_rename hsign,
      stmtsPieces_rename hsign body, rest.pieces_rename hsign]

theorem stmtsPieces_rename (hsign : ∀ name, startsWithMinus (r name) = startsWithMinus name) :
    ∀ ss : List Stmt,
      stmtsPieces (renameStmts r ss) = (stmtsPieces ss).map (List.map (Piece.rename r))
  | [] => rfl
  | s :: rest => by
    rw [renameStmts, stmtsPieces, s.pieces_rename hsign, stmtsPieces_rename hsign rest,
      stmtsPieces, List.map_append]

end

mutual

theorem Stmt.needsHelper_rename : ∀ s : Stmt, (s.rename r).needsHelper = s.needsHelper
  | .branch _ body rest => by
    rw [Stmt.rename, Stmt.needsHelper, anyNeedsHelper_rename body, rest.needsHelper_rename,
      Stmt.needsHelper]
  | .whileLoop _ body | .countUp _ _ body | .countTo _ _ _ body | .function _ _ _ body =>
    anyNeedsHelper_rename body
  | .forOf _ _ helped body => by
    rw [Stmt.rename, Stmt.needsHelper, anyNeedsHelper_rename body, Stmt.needsHelper]
  | .log _ | .declare _ _ _ | .assign _ _ | .call _ _ | .exit | .ret _ | .shortRet => rfl

theorem Else.needsHelper_rename : ∀ rest : Else, (rest.rename r).needsHelper = rest.needsHelper
  | .absent => rfl
  | .body body => anyNeedsHelper_rename body
  | .branch _ body rest => by
    rw [Else.rename, Else.needsHelper, anyNeedsHelper_rename body, rest.needsHelper_rename,
      Else.needsHelper]

theorem anyNeedsHelper_rename : ∀ ss : List Stmt,
    anyNeedsHelper (renameStmts r ss) = anyNeedsHelper ss
  | [] => rfl
  | s :: rest => by
    rw [renameStmts, anyNeedsHelper, s.needsHelper_rename, anyNeedsHelper_rename rest,
      anyNeedsHelper]

end

/-- The pieces of a renamed program are those of the program itself with other
names. -/
theorem programPieces_rename (hsign : ∀ name, startsWithMinus (r name) = startsWithMinus name)
    (program : List Stmt) :
    programPieces (renameStmts r program) = (programPieces program).map (Piece.rename r) := by
  rw [programPieces, anyNeedsHelper_rename, stmtsPieces_rename hsign, programPieces,
    map_intercalate, List.map_append, plain_rename]
  split_ifs <;> simp [Function.comp_def]

end

end Js

/-! ## Identifiers -/

/-- Whether a text is what the scanner takes for a name or a keyword. -/
def isIdentifier (s : String) : Bool :=
  match s.toList with
  | [] => false
  | c :: rest => Scan.startsName c && rest.all Scan.continuesName

theorem startsWithMinus_of_isIdentifier {s : String} (h : isIdentifier s = true) :
    Js.startsWithMinus s = false := by
  unfold isIdentifier at h
  rw [Js.startsWithMinus]
  cases hs : s.toList with
  | nil => rfl
  | cons c rest =>
    rw [hs] at h
    have hstart : Scan.startsName c = true := (Bool.and_eq_true_iff.mp h).1
    have hminus : c ≠ '-' := by
      rintro rfl
      exact absurd hstart (by decide)
    simpa using hminus

/-- A renaming of identifiers among themselves leaves alone whether a name begins with
a minus sign. -/
theorem startsWithMinus_of_identifiers {r : String → String}
    (hidentifier : ∀ name, isIdentifier name = true → isIdentifier (r name) = true)
    (hother : ∀ name, isIdentifier name = false → r name = name) (name : String) :
    Js.startsWithMinus (r name) = Js.startsWithMinus name := by
  cases h : isIdentifier name with
  | true =>
    rw [startsWithMinus_of_isIdentifier h, startsWithMinus_of_isIdentifier (hidentifier name h)]
  | false => rw [hother name h]

/-! ## Compiling a renamed program -/

/-- Two failures of one kind: refusals of one category at one place, or the same
failure. -/
def Failure.Alike : Failure → Failure → Prop
  | refused d, refused d' => d.category = d'.category ∧ d.pos = d'.pos
  | f, f' => f = f'

theorem alike_rename (r : String → String) (fault : ResolveFault) :
    (Failure.ofResolve fault).Alike (.ofResolve (fault.rename r)) := by
  cases fault with
  | rule broken pos => exact ⟨(broken.category_rename r).symm, rfl⟩
  | _ => rfl

theorem Node.toStatements_rename (r : String → String) (n : Node) :
    (n.rename r).toStatements = n.toStatements.map (Node.rename r) := by
  cases n with
  | program statements => rw [rename_program, toStatements, toStatements]
  | list items =>
    rw [rename_list]
    rfl
  | _ => rfl

/-- A renamed tree has the same JavaScript with other names, or none for the same
reason. -/
theorem generate_rename {r : String → String} (hr : Function.Injective r)
    (hsign : ∀ name, Js.startsWithMinus (r name) = Js.startsWithMinus name) (n : Node) :
    (∃ e, Js.emit n.toStatements = .ok e ∧
      generate n = .ok (Js.joined (Js.programPieces e.program)) ∧
      generate (n.rename r) =
        .ok (Js.joined ((Js.programPieces e.program).map (Js.Piece.rename r)))) ∨
    ∃ f, generate n = .error f ∧ generate (n.rename r) = .error f := by
  have hemit := Js.emit_rename hr n.toStatements
  rw [← Node.toStatements_rename] at hemit
  cases h : Js.emit n.toStatements with
  | ok e =>
    rw [h] at hemit
    refine .inl ⟨e, rfl, ?_, ?_⟩
    · rw [generate_eq h, Js.programText_eq]
    · rw [generate_eq hemit, Js.programText_eq, Js.Emitted.rename, Js.programPieces_rename hsign]
  | error f =>
    rw [h] at hemit
    refine .inr ⟨.ofEmit f, ?_, ?_⟩
    · simp [generate, Js.generate, h, Except.map, Except.mapError]
    · simp [generate, Js.generate, hemit, Except.map, Except.mapError]

/-- Renaming a program so that different names stay different changes nothing but
names.  Either both programs are refused in the same way at the same place, or both
are resolved to one tree up to the names of its entities, are optimized to one tree up
to these names, and have one text of JavaScript up to these names, unless a number in
it is too long to be written. -/
theorem renaming_changes_names_only {r : String → String} (hr : Function.Injective r)
    (hsign : ∀ name, Js.startsWithMinus (r name) = Js.startsWithMinus name)
    (p : Surface.Program) :
    (∃ f f', analyzeTree p = .error f ∧ analyzeTree (p.rename r) = .error f' ∧ f.Alike f') ∨
    ∃ t q, analyzeTree p = .ok t ∧ analyzeTree (p.rename r) = .ok (t.rename r) ∧
      optimize t = .ok q ∧ optimize (t.rename r) = .ok (q.rename r) ∧
      ((∃ e, Js.emit q.toStatements = .ok e ∧
          generate q = .ok (Js.joined (Js.programPieces e.program)) ∧
          generate (q.rename r) =
            .ok (Js.joined ((Js.programPieces e.program).map (Js.Piece.rename r)))) ∨
        generate q = .error .digitLimit ∧ generate (q.rename r) = .error .digitLimit) := by
  have hmirrors := resolve_rename hr p
  cases h : resolve p with
  | error fault =>
    rw [h] at hmirrors
    refine .inl ⟨.ofResolve fault, .ofResolve (fault.rename r), ?_, ?_, alike_rename r fault⟩
    · rw [analyzeTree, h, Except.mapError]
    · rw [analyzeTree, hmirrors, Except.mapError]
  | ok t =>
    rw [h] at hmirrors
    have hprogram := optimize_isProgram (resolve_isProgram h)
    have hprogram' := optimize_isProgram (resolve_isProgram hmirrors)
    refine .inr ⟨t, t.optimize, ?_, ?_, hprogram.1, ?_, ?_⟩
    · rw [analyzeTree, h, Except.mapError]
    · rw [analyzeTree, hmirrors, Except.mapError]
    · rw [hprogram'.1]
      exact congrArg Except.ok (Node.optimize_relabel (Variable.rename_injective hr) t)
    · rcases generate_rename hr hsign t.optimize with hsame | ⟨f, hf, hf'⟩
      · exact .inl hsame
      · rcases generate_isProgram hprogram.2 with ⟨text, htext⟩ | hdigits
        · rw [htext] at hf
          cases hf
        · rw [hdigits] at hf
          cases hf
          exact .inr ⟨hdigits, hf'⟩

/-- Exchanges two names, one of which is also the base of the names of limits. -/
def swapLimit : String → String := Equiv.swap "x" "limit"

theorem swapLimit_keeps_signs (name : String) :
    Js.startsWithMinus (swapLimit name) = Js.startsWithMinus name := by
  refine startsWithMinus_of_identifiers ?_ ?_ name
  · intro name h
    rw [swapLimit, Equiv.swap_apply_def]
    split_ifs
    · decide
    · decide
    · exact h
  · intro name h
    apply Equiv.swap_apply_of_ne_of_ne
    · rintro rfl
      exact absurd h (by decide)
    · rintro rfl
      exact absurd h (by decide)

/-- A loop that counts up to a variable called `limit`, and a function whose parameter
has the name of the loop's item. -/
def limitSurface : Surface.Program :=
  ⟨[.declare ⟨⟨1, 1⟩, "limit", .int ⟨1, 9⟩ 3⟩,
    .forEach ⟨2, 1⟩ (.var ⟨2, 1⟩ "limit") "x"
      [.print ⟨2, 15⟩ (.unary ⟨2, 21⟩ .sub (.var ⟨2, 22⟩ "x"))],
    .function ⟨3, 1⟩ "f" [⟨⟨3, 5⟩, "x"⟩] [.print ⟨3, 8⟩ (.var ⟨3, 14⟩ "x")]]⟩

def limitTree : Node :=
  .program [.declare ⟨0, "limit", .int⟩ (.number (.int 3)),
    .forEach ⟨1, "x", .int⟩ (.var ⟨0, "limit", .int⟩)
      [.print (.unary .sub (.var ⟨1, "x", .int⟩) .int)],
    .define ⟨2, "f", [⟨3, "x", .any⟩]⟩ [.print (.var ⟨3, "x", .any⟩)]]

/-- The JavaScript of that tree.  The limit of the loop takes part in the numbering. -/
def limitText : String :=
  "let limit_1 = 3;\nfor (let x_2 = 0, limit_3 = limit_1; x_2 < limit_3; x_2++) \x7b\n" ++
  "console.log((-x_2));\n\x7d\nfunction f_4(x_5) \x7b\nconsole.log(x_5);\n\x7d"

/-- The same with both names exchanged, except in the limit of the loop. -/
def swappedText : String :=
  "let x_1 = 3;\nfor (let limit_2 = 0, limit_3 = x_1; limit_2 < limit_3; limit_2++) \x7b\n" ++
  "console.log((-limit_2));\n\x7d\nfunction f_4(limit_5) \x7b\nconsole.log(limit_5);\n\x7d"

theorem limitSurface_changes_names_only :
    analyzeTree limitSurface = .ok limitTree ∧
    analyzeTree (limitSurface.rename swapLimit) = .ok (limitTree.rename swapLimit) ∧
    ∃ q e, optimize limitTree = .ok q ∧
      optimize (limitTree.rename swapLimit) = .ok (q.rename swapLimit) ∧
      Js.emit q.toStatements = .ok e ∧
      generate q = .ok (Js.joined (Js.programPieces e.program)) ∧
      generate (q.rename swapLimit) =
        .ok (Js.joined ((Js.programPieces e.program).map (Js.Piece.rename swapLimit))) ∧
      generate q = .ok limitText ∧ generate (q.rename swapLimit) = .ok swappedText := by
  have hanalyze : analyzeTree limitSurface = .ok limitTree := rfl
  have htext : generate limitTree.optimize = .ok limitText := by decide +kernel
  have htext' : generate (limitTree.optimize.rename swapLimit) = .ok swappedText := by
    decide +kernel
  rcases renaming_changes_names_only (Equiv.injective _) swapLimit_keeps_signs limitSurface with
    ⟨f, _, hf, -⟩ | ⟨t, q, ht, ht', hq, hq', hjs⟩
  · rw [hanalyze] at hf
    cases hf
  · rw [hanalyze] at ht
    cases ht
    cases hq
    rcases hjs with ⟨e, hemit, hgenerate, hgenerate'⟩ | ⟨hlimit, -⟩
    · exact ⟨hanalyze, ht', limitTree.optimize, e, rfl, hq', hemit, hgenerate, hgenerate', htext,
        htext'⟩
    · rw [htext] at hlimit
      cases hlimit

end Squishc
