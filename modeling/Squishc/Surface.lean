import Squishc.Diagnostic
import Squishc.Op

/-!
# Surface trees

A surface tree is a program as it was written: names are plain texts, and every
node carries the place where it begins.  A tree that was put together by hand
may hold something that is no statement or no expression at all; such a stray
part only remembers what kind of thing it is.
-/

namespace Squishc.Surface

/-- An expression. -/
inductive Expr where
  | int (pos : Pos) (value : Int)
  | float (pos : Pos) (value : Float)
  | bool (pos : Pos) (value : Bool)
  | string (pos : Pos) (value : String)
  | var (pos : Pos) (name : String)
  | array (pos : Pos) (elements : List Expr)
  | index (pos : Pos) (array index : Expr)
  | call (pos : Pos) (callee : String) (args : List Expr)
  | unary (pos : Pos) (op : Op) (operand : Expr)
  | binary (pos : Pos) (op : Op) (left right : Expr)
  | conditional (pos : Pos) (consequent test alternate : Expr)
  | stray (kind : String)
deriving Inhabited

/-- The place where an expression begins. -/
def Expr.pos : Expr → Pos
  | int pos _ => pos
  | float pos _ => pos
  | bool pos _ => pos
  | string pos _ => pos
  | var pos _ => pos
  | array pos _ => pos
  | index pos _ _ => pos
  | call pos _ _ => pos
  | unary pos _ _ => pos
  | binary pos _ _ _ => pos
  | conditional pos _ _ _ => pos
  | stray _ => .unknown

/-- A name and the value it is given, by a declaration or an assignment. -/
structure Binding where
  pos : Pos
  name : String
  value : Expr
deriving Inhabited

/-- A parameter of a function. -/
structure Param where
  pos : Pos
  name : String
deriving DecidableEq, Repr, Inhabited

mutual

/-- A statement. -/
inductive Stmt where
  | print (pos : Pos) (value : Expr)
  | declare (binding : Binding)
  | assign (binding : Binding)
  | branch (pos : Pos) (test : Expr) (body : List Stmt) (rest : Else)
  | whileLoop (pos : Pos) (test : Expr) (body : List Stmt)
  | forLoop (pos : Pos) (init : Binding) (test : Expr) (update : Binding) (body : List Stmt)
  | forEach (pos : Pos) (collection : Expr) (name : String) (body : List Stmt)
  | function (pos : Pos) (name : String) (params : List Param) (body : List Stmt)
  | exit (pos : Pos)
  | ret (pos : Pos) (value : Option Expr)
  | call (pos : Pos) (callee : String) (args : List Expr)
  | stray (kind : String)

/-- What follows the body of a branch: nothing, a closing body, or a further
branch.  In a tree that was put together by hand it may be none of these. -/
inductive Else where
  | absent
  | body (body : List Stmt)
  | branch (pos : Pos) (test : Expr) (body : List Stmt) (rest : Else)
  | stray (kind : String)

end

instance : Inhabited Stmt := ⟨.stray ""⟩

instance : Inhabited Else := ⟨.absent⟩

/-- A whole program. -/
structure Program where
  statements : List Stmt
deriving Inhabited

end Squishc.Surface
