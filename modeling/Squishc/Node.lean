import Squishc.Entity
import Squishc.Number.Basic
import Squishc.Op

/-!
# Typed trees

A typed tree is a program whose names are resolved to entities and whose
expressions carry their types.  Literal numbers and truth values stand for
themselves and have the type of their kind.

All parts of a tree are nodes of one type, because a pass decides for itself
what may stand where: a statement may vanish into an empty list, an expression
may become a bare number.  A tree that was put together by hand may hold nodes
in places where no pass expects them.
-/

namespace Squishc

/-- A part of a typed tree. -/
inductive Node where
  /-- Nothing at all. -/
  | null
  /-- A value that no pass knows. -/
  | foreign
  | bool (value : Bool)
  | number (value : Num)
  | var (v : Variable)
  | function (f : Function)
  /-- A list of statements in the place of one. -/
  | list (items : List Node)
  | program (statements : List Node)
  | print (argument : Node)
  | declare (v : Variable) (initializer : Node)
  | assign (target : Variable) (source : Node)
  /-- A branch without alternative. -/
  | shortIf (test : Node) (consequence : List Node)
  /-- A branch whose alternative is a list of statements or another branch. -/
  | ifElse (test : Node) (consequence : List Node) (alternate : Node)
  | whileLoop (test : Node) (body : List Node)
  /-- A loop with a header of three parts.  When it is unrolled its body holds
  all its rounds, and of the header only the declaration counts. -/
  | forLoop (declaration test increment : Node) (body : List Node) (unrolled : Bool)
  /-- A loop over the numbers below an integer, or over the parts of a string or
  an array. -/
  | forEach (iterator : Variable) (collection : Node) (body : List Node)
  | define (f : Function) (body : List Node)
  | exit
  | ret (expression : Node)
  | shortRet
  | call (callee : Function) (args : List Node) (type : Ty)
  | unary (op : Op) (operand : Node) (type : Ty)
  | binary (op : Op) (left right : Node) (type : Ty)
  | conditional (consequent test alternate : Node) (type : Ty)
  | string (chars : String) (type : Ty)
  | array (elements : List Node) (type : Ty)
  | index (array index : Node) (type : Ty)
deriving Inhabited

namespace Node

/-- The word for the kind of a node in listings and messages. -/
def kind : Node → String
  | null => "NoneType"
  | foreign => "Opaque"
  | bool _ => "bool"
  | number (.int _) => "int"
  | number (.float _) => "float"
  | var _ => "Variable"
  | function _ => "Function"
  | list _ => "list"
  | program _ => "Program"
  | print _ => "PrintStatement"
  | declare _ _ => "VariableDeclaration"
  | assign _ _ => "AssignmentStatement"
  | shortIf _ _ => "ShortIfStatement"
  | ifElse _ _ _ => "IfStatement"
  | whileLoop _ _ => "WhileStatement"
  | forLoop _ _ _ _ _ => "ForStatement"
  | forEach _ _ _ => "LoopStatement"
  | define _ _ => "FunctionDeclaration"
  | exit => "BreakStatement"
  | ret _ => "ReturnStatement"
  | shortRet => "ShortReturnStatement"
  | call _ _ _ => "Call"
  | unary _ _ _ => "BinaryExpression"
  | binary _ _ _ _ => "BinaryExpression"
  | conditional _ _ _ _ => "Conditional"
  | string _ _ => "StringLiteral"
  | array _ _ => "ArrayExpression"
  | index _ _ _ => "ArrayCall"

/-- The type of a node that can be an expression. -/
def type? : Node → Option Ty
  | bool _ => some .boolean
  | number (.int _) => some .int
  | number (.float _) => some .float
  | var v => some v.type
  | call _ _ type => some type
  | unary _ _ type => some type
  | binary _ _ _ type => some type
  | conditional _ _ _ type => some type
  | string _ type => some type
  | array _ type => some type
  | index _ _ type => some type
  | _ => none

/-- The type of an expression. -/
def type (n : Node) : Ty := n.type?.getD .any

/-- The items of a list node, or the node itself as the only item. -/
def spread : Node → List Node
  | list items => items
  | n => [n]

end Node

end Squishc
