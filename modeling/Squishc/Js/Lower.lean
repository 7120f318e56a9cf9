import Squishc.Js.Tree
import Squishc.Node

/-!
# Emission

Turns a typed tree into JavaScript.  Every entity gets a name of its own when it
is first met: its declared name with a number that counts up through the
program.  The branches of an `if` share the scope around it, while blocks of
JavaScript do not, so a declaration that stands directly in a branch is made
with `var`.

Emission is defined on all trees.  `fault?` tells whether a tree has a program at
all, and if not, which obstacle is met first: a node in a place where it has no
meaning, or a number with too many digits.
-/

namespace Squishc.Js

/-- The names given so far, in the order in which they were given, and how many
numbers were used up. -/
structure Naming where
  names : List (Entity × Name)
  count : Nat
deriving DecidableEq, Repr, Inhabited

namespace Naming

/-- No names have been given. -/
def empty : Naming := ⟨[], 0⟩

/-- A name that was not used before. -/
def fresh (n : Naming) (base : String) : Name × Naming :=
  (⟨base, n.count + 1⟩, ⟨n.names, n.count + 1⟩)

/-- The name that an entity has. -/
def find? (n : Naming) (e : Entity) : Option Name :=
  (n.names.find? (fun known => known.1 = e)).map Prod.snd

/-- The name of an entity, which is given one when it has none. -/
def name (n : Naming) (e : Entity) : Name × Naming :=
  match n.find? e with
  | some known => (known, n)
  | none =>
    let (new, n) := n.fresh e.name
    (new, ⟨n.names ++ [(e, new)], n.count⟩)

/-- The names of some variables, from left to right. -/
def nameAll (n : Naming) : List Variable → List Name × Naming
  | [] => ([], n)
  | v :: rest =>
    let (first, n) := n.name (.var v)
    let (others, n) := n.nameAll rest
    (first :: others, n)

end Naming

mutual

/-- The JavaScript of an expression. -/
def lowerExpr : Node → Naming → Expr × Naming
  | .bool value, n => (.bool value, n)
  | .number value, n => (.number value, n)
  | .string chars _, n => (.string chars, n)
  | .var v, n =>
    let (name, n) := n.name (.var v)
    (.name name, n)
  | .unary op operand _, n =>
    let (e, n) := lowerExpr operand n
    (.unary op e, n)
  | .binary op left right _, n =>
    let (l, n) := lowerExpr left n
    let (r, n) := lowerExpr right n
    (.binary op l r, n)
  | .conditional consequent test alternate _, n =>
    let (t, n) := lowerExpr test n
    let (c, n) := lowerExpr consequent n
    let (a, n) := lowerExpr alternate n
    (.conditional t c a, n)
  | .call callee args _, n =>
    let (name, n) := n.name (.function callee)
    let (es, n) := lowerExprs args n
    (.call name es, n)
  | .array elements _, n =>
    let (es, n) := lowerExprs elements n
    (.array es, n)
  | .index array index _, n =>
    let (a, n) := lowerExpr array n
    let (i, n) := lowerExpr index n
    (.index a i, n)
  | _, n => (.blank, n)

/-- The JavaScript of some expressions, from left to right. -/
def lowerExprs : List Node → Naming → List Expr × Naming
  | [], n => ([], n)
  | e :: rest, n =>
    let (first, n) := lowerExpr e n
    let (others, n) := lowerExprs rest n
    (first :: others, n)

end

/-- The binder of a declaration. -/
def binderFor (inBranch : Bool) : Binder := if inBranch then .var_ else .let_

/-- Whether a node is an integer literal. -/
def isIntLiteral : Node → Bool
  | .number (.int _) => true
  | _ => false

/-- The loop over a collection with its lowered parts.  A loop over an integer
counts; its bound is read once unless it is a literal. -/
def lowerLoop (item : Name) (node : Node) (collection : Expr) (n : Naming) :
    (List Stmt → Stmt) × Naming :=
  match node.type with
  | .int =>
    if isIntLiteral node then (.countUp item collection, n)
    else
      let (limit, n) := n.fresh "limit"
      (.countTo item limit collection, n)
  | .any => (.forOf item collection true, n)
  | _ => (.forOf item collection false, n)

mutual

/-- The JavaScript of a statement that stands directly in a branch or not. -/
def lowerStmt (inBranch : Bool) : Node → Naming → List Stmt × Naming
  | .print argument, n =>
    let (e, n) := lowerExpr argument n
    ([.log e], n)
  | .declare v initializer, n =>
    let (e, n) := lowerExpr initializer n
    let (name, n) := n.name (.var v)
    ([.declare (binderFor inBranch) name e], n)
  | .assign target source, n =>
    let (name, n) := n.name (.var target)
    let (e, n) := lowerExpr source n
    ([.assign name e], n)
  | .shortIf test consequence, n =>
    let (t, n) := lowerExpr test n
    let (body, n) := lowerStmts true consequence n
    ([.branch t body .absent], n)
  | .ifElse test consequence alternate, n =>
    let (t, n) := lowerExpr test n
    let (body, n) := lowerStmts true consequence n
    let (rest, n) := lowerElse alternate n
    ([.branch t body rest], n)
  | .whileLoop test body, n =>
    let (t, n) := lowerExpr test n
    let (stmts, n) := lowerStmts false body n
    ([.whileLoop t stmts], n)
  | .forLoop declaration test increment body unrolled, n =>
    let (header, n) := lowerStmt inBranch declaration n
    if unrolled then
      let (stmts, n) := lowerStmts inBranch body n
      (header ++ stmts, n)
    else
      let (t, n) := lowerExpr test n
      let (stmts, n) := lowerStmts false body n
      let (last, n) := lowerStmt inBranch increment n
      (header ++ [.whileLoop t (stmts ++ last)], n)
  | .forEach iterator collection body, n =>
    let (item, n) := n.name (.var iterator)
    let (e, n) := lowerExpr collection n
    let (loop, n) := lowerLoop item collection e n
    let (stmts, n) := lowerStmts false body n
    ([loop stmts], n)
  | .define f body, n =>
    let (name, n) := n.name (.function f)
    let (params, n) := n.nameAll f.params
    let (stmts, n) := lowerStmts false body n
    ([.function inBranch name params stmts], n)
  | .call callee args _, n =>
    let (name, n) := n.name (.function callee)
    let (es, n) := lowerExprs args n
    ([.call name es], n)
  | .exit, n => ([.exit], n)
  | .ret expression, n =>
    let (e, n) := lowerExpr expression n
    ([.ret e], n)
  | .shortRet, n => ([.shortRet], n)
  | _, n => ([], n)

/-- The JavaScript of the alternative of a branch. -/
def lowerElse : Node → Naming → Else × Naming
  | .shortIf test consequence, n =>
    let (t, n) := lowerExpr test n
    let (body, n) := lowerStmts true consequence n
    (.branch t body .absent, n)
  | .ifElse test consequence alternate, n =>
    let (t, n) := lowerExpr test n
    let (body, n) := lowerStmts true consequence n
    let (rest, n) := lowerElse alternate n
    (.branch t body rest, n)
  | .list items, n =>
    let (body, n) := lowerStmts true items n
    (.body body, n)
  | _, n => (.absent, n)

/-- The JavaScript of some statements, in their order. -/
def lowerStmts (inBranch : Bool) : List Node → Naming → List Stmt × Naming
  | [], n => ([], n)
  | s :: rest, n =>
    let (first, n) := lowerStmt inBranch s n
    let (others, n) := lowerStmts inBranch rest n
    (first ++ others, n)

end

/-! ## Obstacles -/

/-- Why a tree has no program. -/
inductive EmitFault where
  /-- A node stands where it has no meaning. -/
  | stray (kind : String)
  /-- A node other than a list or a branch stands in the place of an
  alternative. -/
  | noBlock (kind : String)
  /-- A number has too many digits. -/
  | digitLimit
deriving DecidableEq, Repr, Inhabited

mutual

/-- The first obstacle in an expression. -/
def exprFault? : Node → Option EmitFault
  | .bool _ => none
  | .number value => if value.writable then none else some .digitLimit
  | .string _ _ => none
  | .var _ => none
  | .unary _ operand _ => exprFault? operand
  | .binary _ left right _ => (exprFault? left).or (exprFault? right)
  | .conditional consequent test alternate _ =>
    (exprFault? test).or ((exprFault? consequent).or (exprFault? alternate))
  | .call _ args _ => exprsFault? args
  | .array elements _ => exprsFault? elements
  | .index array index _ => (exprFault? array).or (exprFault? index)
  | n => some (.stray n.kind)

/-- The first obstacle in some expressions. -/
def exprsFault? : List Node → Option EmitFault
  | [] => none
  | e :: rest => (exprFault? e).or (exprsFault? rest)

end

mutual

/-- The first obstacle in a statement. -/
def stmtFault? : Node → Option EmitFault
  | .print argument => exprFault? argument
  | .declare _ initializer => exprFault? initializer
  | .assign _ source => exprFault? source
  | .shortIf test consequence => (exprFault? test).or (stmtsFault? consequence)
  | .ifElse test consequence alternate =>
    (exprFault? test).or ((stmtsFault? consequence).or (elseFault? alternate))
  | .whileLoop test body => (exprFault? test).or (stmtsFault? body)
  | .forLoop declaration test increment body unrolled =>
    (stmtFault? declaration).or
      (if unrolled then stmtsFault? body
      else (exprFault? test).or ((stmtsFault? body).or (stmtFault? increment)))
  | .forEach _ collection body => (exprFault? collection).or (stmtsFault? body)
  | .define _ body => stmtsFault? body
  | .call _ args _ => exprsFault? args
  | .exit => none
  | .ret expression => exprFault? expression
  | .shortRet => none
  | n => some (.stray n.kind)

/-- The first obstacle in the alternative of a branch. -/
def elseFault? : Node → Option EmitFault
  | .shortIf test consequence => (exprFault? test).or (stmtsFault? consequence)
  | .ifElse test consequence alternate =>
    (exprFault? test).or ((stmtsFault? consequence).or (elseFault? alternate))
  | .list items => stmtsFault? items
  | n => some (.noBlock n.kind)

/-- The first obstacle in some statements. -/
def stmtsFault? : List Node → Option EmitFault
  | [] => none
  | s :: rest => (stmtFault? s).or (stmtsFault? rest)

end

/-! ## Programs -/

/-- An emitted program and the names of its entities. -/
structure Emitted where
  program : List Stmt
  naming : Naming

/-- The JavaScript of a list of statements. -/
def emit (statements : List Node) : Except EmitFault Emitted :=
  match stmtsFault? statements with
  | some f => .error f
  | none =>
    let (program, naming) := lowerStmts false statements .empty
    .ok ⟨program, naming⟩

/-- The text of the JavaScript of a list of statements. -/
def generate (statements : List Node) : Except EmitFault String :=
  (emit statements).map (fun e => programText e.program)

/-! ## One program after another -/

/-- An emitter, which holds the names that it gave in the last program, whether or not
that program was emitted to its end. -/
structure Emitter where
  naming : Naming
deriving DecidableEq, Repr, Inhabited

namespace Emitter

/-- An emitter that was never used. -/
def new : Emitter := ⟨.empty⟩

/-- The emitter without the names of earlier programs. -/
def clear (m : Emitter) : Emitter := { m with naming := .empty }

/-- Emits a program and gives the emitter for the next one.  Names and numbers begin
anew with every program. -/
def emit (m : Emitter) (statements : List Node) : Except EmitFault Emitted × Emitter :=
  let (program, naming) := lowerStmts false statements m.clear.naming
  match stmtsFault? statements with
  | some f => (.error f, ⟨naming⟩)
  | none => (.ok ⟨program, naming⟩, ⟨naming⟩)

end Emitter

end Squishc.Js
