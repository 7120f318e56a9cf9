import Squishc.Js.StringText
import Squishc.Number.Basic
import Squishc.Op

/-!
# JavaScript

The part of JavaScript that programs are compiled to, and its text.  A program is
written without indentation: every statement and every line that opens or closes
a block has a line of its own.
-/

namespace Squishc.Js

/-- A name in the emitted program: a base and a number that no other name has. -/
structure Name where
  base : String
  index : Nat
deriving DecidableEq, Repr, Inhabited

/-- The text of a name. -/
def Name.text (n : Name) : String := n.base ++ "_" ++ toString n.index

/-- An expression. -/
inductive Expr where
  | bool (value : Bool)
  | number (value : Num)
  | string (value : String)
  | name (n : Name)
  | unary (op : Op) (operand : Expr)
  | binary (op : Op) (left right : Expr)
  | conditional (test consequent alternate : Expr)
  | call (callee : Name) (args : List Expr)
  | array (elements : List Expr)
  | index (array index : Expr)
  /-- No expression; it has no text. -/
  | blank
deriving Inhabited

/-- The text of a binary operator. -/
def operatorText : Op → String
  | .conj => "&&"
  | .disj => "||"
  | .eq => "==="
  | .ne => "!=="
  | op => op.text

/-- Whether a text begins with a minus sign. -/
def startsWithMinus (text : String) : Bool :=
  text.toList.head? == some '-'

/-- The operand of a sign.  A blank keeps two minus signs apart. -/
def signedOperand (text : String) : String :=
  if startsWithMinus text then " " ++ text else text

/-- The left operand of an operator.  The base of a power must not begin with a
sign. -/
def leftOperand (op : Op) (text : String) : String :=
  if op = .pow && startsWithMinus text then "(" ++ text ++ ")" else text

mutual

/-- The text of an expression. -/
def Expr.text : Expr → String
  | .bool value => if value then "true" else "false"
  | .number value => value.literal
  | .string value => "\"" ++ escape value ++ "\""
  | .name n => n.text
  | .unary op operand => "(" ++ op.text ++ signedOperand operand.text ++ ")"
  | .binary op left right =>
    "(" ++ leftOperand op left.text ++ " " ++ operatorText op ++ " " ++ right.text ++ ")"
  | .conditional test consequent alternate =>
    "(" ++ test.text ++ " ? " ++ consequent.text ++ " : " ++ alternate.text ++ ")"
  | .call callee args => callee.text ++ "(" ++ ",".intercalate (texts args) ++ ")"
  | .array elements => "[" ++ ",".intercalate (texts elements) ++ "]"
  | .index array index => array.text ++ "[" ++ index.text ++ "]"
  | .blank => ""

/-- The texts of some expressions. -/
def texts : List Expr → List String
  | [] => []
  | e :: rest => e.text :: texts rest

end

/-- How a variable is declared: `var` is seen in the whole function, `let` in the
block. -/
inductive Binder where
  | var_
  | let_
deriving DecidableEq, Repr, Inhabited

/-- The text of a binder. -/
def Binder.text : Binder → String
  | var_ => "var"
  | let_ => "let"

mutual

/-- A statement. -/
inductive Stmt where
  | log (argument : Expr)
  | declare (binder : Binder) (name : Name) (initializer : Expr)
  | assign (target : Name) (source : Expr)
  | branch (test : Expr) (body : List Stmt) (rest : Else)
  | whileLoop (test : Expr) (body : List Stmt)
  /-- Counts from zero up to a bound that is a literal. -/
  | countUp (counter : Name) (bound : Expr) (body : List Stmt)
  /-- Counts from zero up to a bound that is read once. -/
  | countTo (counter limit : Name) (bound : Expr) (body : List Stmt)
  /-- Runs over the items of a collection, by way of the helper if it may be a
  number. -/
  | forOf (item : Name) (collection : Expr) (helped : Bool) (body : List Stmt)
  /-- A function, declared by a binder or by a declaration of its own. -/
  | function (bound : Bool) (name : Name) (params : List Name) (body : List Stmt)
  | call (callee : Name) (args : List Expr)
  | exit
  | ret (expression : Expr)
  | shortRet

/-- What follows the body of a branch. -/
inductive Else where
  | absent
  | body (body : List Stmt)
  | branch (test : Expr) (body : List Stmt) (rest : Else)

end

instance : Inhabited Stmt := ⟨.exit⟩

instance : Inhabited Else := ⟨.absent⟩

/-- The line that opens a block behind a header. -/
def opening (header : String) : String := header ++ " \x7b"

/-- The line that closes a block. -/
def closing : String := "\x7d"

/-- The header of a branch. -/
def branchHeader (test : Expr) : String := opening ("if (" ++ test.text ++ ")")

/-- The texts of some names, with commas between them. -/
def nameList (names : List Name) : String := ", ".intercalate (names.map Name.text)

/-- The header of a loop that counts up to a literal. -/
def countUpHeader (counter : Name) (bound : Expr) : String :=
  opening ("for (let " ++ counter.text ++ " = 0; " ++ counter.text ++ " < " ++ bound.text ++ "; " ++
    counter.text ++ "++)")

/-- The header of a loop that counts up to a limit. -/
def countToHeader (counter limit : Name) (bound : Expr) : String :=
  opening ("for (let " ++ counter.text ++ " = 0, " ++ limit.text ++ " = " ++ bound.text ++ "; " ++
    counter.text ++ " < " ++ limit.text ++ "; " ++ counter.text ++ "++)")

/-- The header of a loop over a collection. -/
def forOfHeader (item : Name) (collection : Expr) (helped : Bool) : String :=
  let items := if helped then "_iter(" ++ collection.text ++ ")" else collection.text
  opening ("for (const " ++ item.text ++ " of " ++ items ++ ")")

/-- The header of a function. -/
def functionHeader (bound : Bool) (name : Name) (params : List Name) : String :=
  if bound then opening ("var " ++ name.text ++ " = function (" ++ nameList params ++ ")")
  else opening ("function " ++ name.text ++ "(" ++ nameList params ++ ")")

mutual

/-- The lines of a statement. -/
def Stmt.lines : Stmt → List String
  | .log argument => ["console.log(" ++ argument.text ++ ");"]
  | .declare binder name initializer =>
    [binder.text ++ " " ++ name.text ++ " = " ++ initializer.text ++ ";"]
  | .assign target source => [target.text ++ " = " ++ source.text ++ ";"]
  | .branch test body rest => branchHeader test :: allLines body ++ rest.lines
  | .whileLoop test body =>
    opening ("while (" ++ test.text ++ ")") :: allLines body ++ [closing]
  | .countUp counter bound body => countUpHeader counter bound :: allLines body ++ [closing]
  | .countTo counter limit bound body =>
    countToHeader counter limit bound :: allLines body ++ [closing]
  | .forOf item collection helped body =>
    forOfHeader item collection helped :: allLines body ++ [closing]
  | .function bound name params body =>
    functionHeader bound name params :: allLines body ++ [if bound then closing ++ ";" else closing]
  | .call callee args => [(Expr.call callee args).text ++ ";"]
  | .exit => ["break;"]
  | .ret expression => ["return " ++ expression.text ++ ";"]
  | .shortRet => ["return;"]

/-- The lines behind the body of a branch.  A further branch begins on a line of its
own. -/
def Else.lines : Else → List String
  | .absent => [closing]
  | .body body => opening (closing ++ " else") :: allLines body ++ [closing]
  | .branch test body rest =>
    (closing ++ " else") :: branchHeader test :: allLines body ++ rest.lines

/-- The lines of some statements. -/
def allLines : List Stmt → List String
  | [] => []
  | s :: rest => s.lines ++ allLines rest

end

mutual

/-- Whether a statement loops by way of the helper. -/
def Stmt.needsHelper : Stmt → Bool
  | .branch _ body rest => anyNeedsHelper body || rest.needsHelper
  | .whileLoop _ body => anyNeedsHelper body
  | .countUp _ _ body => anyNeedsHelper body
  | .countTo _ _ _ body => anyNeedsHelper body
  | .forOf _ _ helped body => helped || anyNeedsHelper body
  | .function _ _ _ body => anyNeedsHelper body
  | _ => false

/-- Whether what follows the body of a branch loops by way of the helper. -/
def Else.needsHelper : Else → Bool
  | .absent => false
  | .body body => anyNeedsHelper body
  | .branch _ body rest => anyNeedsHelper body || rest.needsHelper

/-- Whether some statements loop by way of the helper. -/
def anyNeedsHelper : List Stmt → Bool
  | [] => false
  | s :: rest => s.needsHelper || anyNeedsHelper rest

end

/-- The helper gives the items of a collection about which nothing is known; a
number stands for the numbers below it. -/
def helperLines : List String :=
  [opening "function _iter(c)",
   "return typeof c === \"number\" ? Array.from(\x7blength: c\x7d, (_, k) => k) : c;",
   closing]

/-- The lines of a program, with the helper at the end if it is needed. -/
def programLines (program : List Stmt) : List String :=
  allLines program ++ (if anyNeedsHelper program then helperLines else [])

/-- The text of a program. -/
def programText (program : List Stmt) : String :=
  "\n".intercalate (programLines program)

end Squishc.Js
