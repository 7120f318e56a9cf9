import Squishc.Fold
import Squishc.Node

/-!
# Reducing a node

What becomes of a node whose parts are already as simple as they get.  Of an
operation, two numbers are folded, neutral and absorbing numbers are dropped,
and a disjunction loses an operand that is known to be false.  A statement
without effect vanishes: an assignment of a variable to itself, a loop on a test
that is false, a loop over an empty string.  A statement that vanishes leaves an
empty list, and lists of statements are kept flat.
-/

namespace Squishc.Node

/-- A known value as a node. -/
def ofConstant : Constant → Node
  | .number n => number n
  | .truth b => bool b

/-- What becomes of a disjunction. -/
def reduceDisjunction (left right : Node) (type : Ty) : Node :=
  match left, right with
  | bool false, _ => right
  | _, bool false => left
  | _, _ => binary .disj left right type

/-- What becomes of an operation whose left operand alone is a number. -/
def reduceLeft (op : Op) (a : Num) (right : Node) (type : Ty) : Node :=
  if a.isZero && op = .add then right
  else if a.isOne && op = .mul then right
  else if a.isZero && op = .sub then unary .sub right type
  else if a.isOne && op = .pow then number (.int 1)
  else if a.isZero && (op = .mul || op = .div) then number (.int 0)
  else binary op (number a) right type

/-- What becomes of an operation whose right operand alone is a number. -/
def reduceRight (op : Op) (left : Node) (b : Num) (type : Ty) : Node :=
  if b.isZero && (op = .add || op = .sub) then left
  else if b.isOne && (op = .mul || op = .div) then left
  else if b.isZero && op = .mul then number (.int 0)
  else if b.isZero && op = .pow then number (.int 1)
  else binary op left (number b) type

/-- What becomes of a binary operation. -/
def reduceBinary (op : Op) (left right : Node) (type : Ty) : Node :=
  if op = .disj then reduceDisjunction left right type
  else
    match left, right with
    | number a, number b =>
      match Num.fold op a b with
      | some c => ofConstant c
      | none => binary op left right type
    | number a, right => reduceLeft op a right type
    | left, number b => reduceRight op left b type
    | left, right => binary op left right type

/-- What becomes of an operation with one operand. -/
def reduceUnary (op : Op) (operand : Node) (type : Ty) : Node :=
  match op, operand with
  | .sub, number a => number a.neg
  | .not, bool b => bool !b
  | op, operand => unary op operand type

/-! ## Statements -/

/-- A literal false. -/
def isFalse : Node → Bool
  | bool false => true
  | _ => false

/-- An empty string literal. -/
def isEmptyString : Node → Bool
  | string chars _ => chars == ""
  | _ => false

/-- The given variable. -/
def isVariable (v : Variable) : Node → Bool
  | var w => w = v
  | _ => false

/-- An assignment, unless it would assign a variable to itself. -/
def reduceAssign (target : Variable) (source : Node) : Node :=
  if source.isVariable target then list [] else assign target source

/-- A loop on a test, unless the test is false. -/
def reduceWhile (test : Node) (body : List Node) : Node :=
  if test.isFalse then list [] else whileLoop test body

/-- A loop over a collection, unless that is an empty string. -/
def reduceForEach (iterator : Variable) (collection : Node) (body : List Node) : Node :=
  if collection.isEmptyString then list [] else forEach iterator collection body

/-! ## Nodes -/

mutual

/-- What becomes of a node with simple parts. -/
def reduce : Node → Node
  | list items => list (reduceStmts items)
  | assign target source => reduceAssign target source
  | whileLoop test body => reduceWhile test body
  | forEach iterator collection body => reduceForEach iterator collection body
  | unary op operand type => reduceUnary op operand type
  | binary op left right type => reduceBinary op left right type
  | n => n

/-- What becomes of a list of statements with simple parts, which stays flat. -/
def reduceStmts : List Node → List Node
  | [] => []
  | n :: rest => n.reduce.spread ++ reduceStmts rest

end

end Squishc.Node
