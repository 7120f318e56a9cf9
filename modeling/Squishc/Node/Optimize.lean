import Squishc.Node.Reduce
import Squishc.Node.Unroll

/-!
# Optimizing

Simplifies a typed tree from its leaves up: the parts of a node are optimized,
then the node itself is reduced, and counted loops are unrolled.  What is
certain to vanish is not looked into.

The increment of a loop has to stay in the header.  It is replaced by its
optimized form if that is an assignment; otherwise only its parts are
simplified, and the increment itself stays where it would have been reduced or
would have vanished.

Optimizing is defined on all trees.  `obstacle?` tells whether the pass makes sense
of a tree at all, and if not, which obstacle it meets first.

Main results:

- Theorems `optimize_print`, `optimize_binary` and their like: the optimized form
  of a node by the optimized forms of its parts.
-/

namespace Squishc.Node

/-! ## The pass -/

/-- The increment of a header, given the increment with simplified parts. -/
def keepIncrement (simplified : Node) : Node :=
  match simplified.reduce with
  | assign target source => assign target source
  | _ => simplified

/-- A loop on a simplified test.  Its body is only simplified if it can run. -/
def simplifyWhile (test : Node) (body simplified : List Node) : Node :=
  whileLoop test (if test.isFalse then body else simplified)

/-- A loop over a simplified collection.  Its body is only simplified if it can
run. -/
def simplifyForEach (iterator : Variable) (collection : Node) (body simplified : List Node) :
    Node :=
  forEach iterator collection (if collection.isEmptyString then body else simplified)

mutual

/-- A node with simplified parts, which itself is not reduced. -/
def simplify : Node → Node
  | list items => list (simplifyEach items)
  | program statements => program (reduceStmts (simplifyEach statements))
  | print argument => print argument.simplify.reduce
  | declare v initializer => declare v initializer.simplify.reduce
  | assign target source => assign target source.simplify.reduce
  | shortIf test consequence =>
    shortIf test.simplify.reduce (reduceStmts (simplifyEach consequence))
  | ifElse test consequence alternate =>
    ifElse test.simplify.reduce (reduceStmts (simplifyEach consequence))
      alternate.simplify.reduce
  | whileLoop test body =>
    simplifyWhile test.simplify.reduce body (reduceStmts (simplifyEach body))
  | forLoop declaration test increment body unrolled =>
    if unrolled then forLoop declaration test increment (reduceStmts (simplifyEach body)) true
    else
      unroll declaration.simplify.reduce test.simplify.reduce
        (keepIncrement increment.simplify) (reduceStmts (simplifyEach body))
  | forEach iterator collection body =>
    simplifyForEach iterator collection.simplify.reduce body (reduceStmts (simplifyEach body))
  | define f body => define f (reduceStmts (simplifyEach body))
  | ret expression => ret expression.simplify.reduce
  | call callee args type => call callee ((simplifyEach args).map reduce) type
  | unary op operand type => unary op operand.simplify.reduce type
  | binary op left right type => binary op left.simplify.reduce right.simplify.reduce type
  | conditional consequent test alternate type =>
    conditional consequent.simplify.reduce test.simplify.reduce alternate.simplify.reduce type
  | array elements type => array ((simplifyEach elements).map reduce) type
  | index a i type => index a.simplify.reduce i.simplify.reduce type
  | null => null
  | foreign => foreign
  | bool b => bool b
  | number n => number n
  | var v => var v
  | function f => function f
  | exit => exit
  | shortRet => shortRet
  | string chars type => string chars type

/-- Some nodes with simplified parts. -/
def simplifyEach : List Node → List Node
  | [] => []
  | n :: rest => n.simplify :: simplifyEach rest

end

/-- The optimized form of a node. -/
def optimize (n : Node) : Node := n.simplify.reduce

/-- The optimized form of a list of statements, which stays flat. -/
def optimizeStmts (items : List Node) : List Node := reduceStmts (simplifyEach items)

/-- The optimized forms of some expressions. -/
def optimizeAll (items : List Node) : List Node := (simplifyEach items).map reduce

/-- The optimized increment of a header. -/
def optimizeIncrement (increment : Node) : Node := keepIncrement increment.simplify

/-! ## The pass by the kind of a node -/

@[simp] theorem optimizeStmts_nil : optimizeStmts [] = [] := rfl

@[simp] theorem optimizeStmts_cons (n : Node) (rest : List Node) :
    optimizeStmts (n :: rest) = n.optimize.spread ++ optimizeStmts rest := rfl

@[simp] theorem optimizeAll_nil : optimizeAll [] = [] := rfl

@[simp] theorem optimizeAll_cons (n : Node) (rest : List Node) :
    optimizeAll (n :: rest) = n.optimize :: optimizeAll rest := rfl

theorem optimize_list (items : List Node) :
    (list items).optimize = list (optimizeStmts items) := rfl

theorem optimize_program (statements : List Node) :
    (program statements).optimize = program (optimizeStmts statements) := rfl

theorem optimize_print (argument : Node) :
    (print argument).optimize = print argument.optimize := rfl

theorem optimize_declare (v : Variable) (initializer : Node) :
    (declare v initializer).optimize = declare v initializer.optimize := rfl

theorem optimize_assign (target : Variable) (source : Node) :
    (assign target source).optimize = reduceAssign target source.optimize := rfl

theorem optimize_shortIf (test : Node) (consequence : List Node) :
    (shortIf test consequence).optimize =
      shortIf test.optimize (optimizeStmts consequence) := rfl

theorem optimize_ifElse (test : Node) (consequence : List Node) (alternate : Node) :
    (ifElse test consequence alternate).optimize =
      ifElse test.optimize (optimizeStmts consequence) alternate.optimize := rfl

theorem optimize_whileLoop (test : Node) (body : List Node) :
    (whileLoop test body).optimize = reduceWhile test.optimize (optimizeStmts body) := by
  by_cases h : test.simplify.reduce.isFalse = true <;>
    simp [optimize, optimizeStmts, simplify, simplifyWhile, reduce, reduceWhile, h]

theorem optimize_forEach (iterator : Variable) (collection : Node) (body : List Node) :
    (forEach iterator collection body).optimize =
      reduceForEach iterator collection.optimize (optimizeStmts body) := by
  by_cases h : collection.simplify.reduce.isEmptyString = true <;>
    simp [optimize, optimizeStmts, simplify, simplifyForEach, reduce, reduceForEach, h]

theorem optimize_define (f : Function) (body : List Node) :
    (define f body).optimize = define f (optimizeStmts body) := rfl

theorem optimize_ret (expression : Node) :
    (ret expression).optimize = ret expression.optimize := rfl

theorem optimize_call (callee : Function) (args : List Node) (type : Ty) :
    (call callee args type).optimize = call callee (optimizeAll args) type := rfl

theorem optimize_unary (op : Op) (operand : Node) (type : Ty) :
    (unary op operand type).optimize = reduceUnary op operand.optimize type := rfl

theorem optimize_binary (op : Op) (left right : Node) (type : Ty) :
    (binary op left right type).optimize =
      reduceBinary op left.optimize right.optimize type := rfl

theorem optimize_conditional (consequent test alternate : Node) (type : Ty) :
    (conditional consequent test alternate type).optimize =
      conditional consequent.optimize test.optimize alternate.optimize type := rfl

theorem optimize_array (elements : List Node) (type : Ty) :
    (array elements type).optimize = array (optimizeAll elements) type := rfl

theorem optimize_index (a i : Node) (type : Ty) :
    (index a i type).optimize = index a.optimize i.optimize type := rfl

/-- A loop that was unrolled before keeps its header. -/
theorem optimize_unrolled (declaration test increment : Node) (body : List Node) :
    (forLoop declaration test increment body true).optimize =
      forLoop declaration test increment (optimizeStmts body) true := rfl

theorem reduce_unroll (declaration test increment : Node) (body : List Node) :
    (unroll declaration test increment body).reduce = unroll declaration test increment body := by
  unfold unroll
  split
  · split <;> simp [reduce]
  · simp [reduce]

/-- Any other loop is unrolled with its optimized parts. -/
theorem optimize_forLoop (declaration test increment : Node) (body : List Node) :
    (forLoop declaration test increment body false).optimize =
      unroll declaration.optimize test.optimize increment.optimizeIncrement
        (optimizeStmts body) :=
  reduce_unroll _ _ _ _

/-! ## Obstacles -/

/-- Why the pass makes no sense of a tree. -/
inductive Obstacle where
  /-- A node of a kind that the pass does not know. -/
  | stray (kind : String)
  /-- A node in a header that lacks a part of the node that belongs there. -/
  | lacks (kind part : String)
deriving DecidableEq, Repr, Inhabited

/-- The obstacle in a header with optimized parts.  A header must declare a variable;
the increment is only looked into when the rest of the header counts. -/
def headerObstacle? (declaration test increment : Node) : Option Obstacle :=
  match declaration with
  | declare v (number (.int _)) =>
    match test, increment with
    | _, assign _ _ => none
    | binary .lt (var tested) (number (.int _)) _, n =>
      if tested = v then some (.lacks n.kind "source") else none
    | _, _ => none
  | declare _ _ => none
  | n => some (.lacks n.kind "variable")

mutual

/-- The first obstacle that optimizing a node meets.  What is certain to vanish is
not looked into. -/
def obstacle? : Node → Option Obstacle
  | null => some (.stray null.kind)
  | foreign => some (.stray foreign.kind)
  | list items => anyObstacle? items
  | program statements => anyObstacle? statements
  | print argument => argument.obstacle?
  | declare _ initializer => initializer.obstacle?
  | assign _ source => source.obstacle?
  | shortIf test consequence => test.obstacle?.or (anyObstacle? consequence)
  | ifElse test consequence alternate =>
    test.obstacle?.or ((anyObstacle? consequence).or alternate.obstacle?)
  | whileLoop test body =>
    test.obstacle?.or (if test.optimize.isFalse then none else anyObstacle? body)
  | forLoop declaration test increment body unrolled =>
    if unrolled then anyObstacle? body
    else
      declaration.obstacle?.or (test.obstacle?.or (increment.obstacle?.or
        ((anyObstacle? body).or
          (headerObstacle? declaration.optimize test.optimize increment.optimizeIncrement))))
  | forEach _ collection body =>
    collection.obstacle?.or
      (if collection.optimize.isEmptyString then none else anyObstacle? body)
  | define _ body => anyObstacle? body
  | ret expression => expression.obstacle?
  | call _ args _ => anyObstacle? args
  | unary _ operand _ => operand.obstacle?
  | binary _ left right _ => left.obstacle?.or right.obstacle?
  | conditional consequent test alternate _ =>
    consequent.obstacle?.or (test.obstacle?.or alternate.obstacle?)
  | array elements _ => anyObstacle? elements
  | index a i _ => a.obstacle?.or i.obstacle?
  | bool _ | number _ | var _ | function _ | exit | shortRet | string _ _ => none

/-- The first obstacle that optimizing some nodes meets. -/
def anyObstacle? : List Node → Option Obstacle
  | [] => none
  | n :: rest => n.obstacle?.or (anyObstacle? rest)

end

end Squishc.Node
