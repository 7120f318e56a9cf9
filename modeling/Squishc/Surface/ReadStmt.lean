import Squishc.Surface.ReadExpr
import Squishc.Token.Scan

/-!
# Reading statements

One reader for each kind of statement.  A body runs up to the word `stop`; the
body of a branch may also end at `else`, with or without a `stop` before it, and
an `else` that is followed by `if` continues the branch.

As for expressions, the readers recurse on a fuel that bounds the depth of
calls.
-/

namespace Squishc.Surface

namespace Cursor

/-- Reads `= value ;` after a name. -/
def bindingRest (c : Cursor) (start : Pos) (name : String) : Reading (Binding × Cursor) := do
  let c ← c.expect (.symbol .assign)
  let (value, c) ← c.expr
  let c ← c.expect (.symbol .semicolon)
  return (⟨start, name, value⟩, c)

/-- Reads a declaration. -/
def declaration (c : Cursor) : Reading (Binding × Cursor) := do
  let start := c.pos
  let c ← c.expect (.keyword .pencil)
  let (name, c) ← c.expectName
  c.bindingRest start name

/-- Reads an assignment. -/
def assignment (c : Cursor) : Reading (Binding × Cursor) := do
  let start := c.pos
  let (name, c) ← c.expectName
  c.bindingRest start name

/-- Reads a statement that prints a value. -/
def print (c : Cursor) : Reading (Stmt × Cursor) := do
  let start := c.pos
  let c ← c.expect (.keyword .speak)
  let (value, c) ← c.expr
  let c ← c.expect (.symbol .semicolon)
  return (.print start value, c)

/-- Reads a statement that leaves a loop. -/
def exit (c : Cursor) : Reading (Stmt × Cursor) := do
  let start := c.pos
  let c ← c.expect (.keyword .break_)
  let c ← c.expect (.symbol .semicolon)
  return (.exit start, c)

/-- Reads a statement that leaves a function. -/
def ret (c : Cursor) : Reading (Stmt × Cursor) := do
  let start := c.pos
  let c ← c.expect (.keyword .return_)
  if c.isAt (.symbol .semicolon) then
    return (.ret start none, c.next)
  else
    let (value, c) ← c.expr
    let c ← c.expect (.symbol .semicolon)
    return (.ret start (some value), c)

/-- Reads a call that is a statement. -/
def callStmt (c : Cursor) : Reading (Stmt × Cursor) := do
  let start := c.pos
  let ((callee, args), c) ← c.call
  let c ← c.expect (.symbol .semicolon)
  return (.call start callee args, c)

/-- Reads a parameter. -/
def param (c : Cursor) : Reading (Param × Cursor) := do
  let start := c.pos
  let (name, c) ← c.expectName
  return (⟨start, name⟩, c)

end Cursor

namespace ReadStmt

/-- The parameters behind a first one, each with its comma. -/
def moreParams : Nat → Cursor → Reading (List Param × Cursor)
  | 0, _ => .error .outOfFuel
  | fuel + 1, c =>
    if c.isAt (.symbol .comma) then do
      let (p, c) ← c.next.param
      let (others, c) ← moreParams fuel c
      return (p :: others, c)
    else
      return ([], c)

/-- The parameters of a function, of which there may be none. -/
def params (c : Cursor) : Reading (List Param × Cursor) :=
  if c.atName then do
    let (p, c) ← c.param
    let (others, c) ← moreParams c.fuelFor c
    return (p :: others, c)
  else
    return ([], c)

mutual

/-- A statement. -/
def stmt : Nat → Cursor → Reading (Stmt × Cursor)
  | 0, _ => .error .outOfFuel
  | fuel + 1, c =>
    if c.isAt (.keyword .speak) then c.print
    else if c.isAt (.keyword .pencil) then do
      let (b, c) ← c.declaration
      return (.declare b, c)
    else if c.isAt (.keyword .if_) then do
      let ((test, body, rest), after) ← branch fuel c
      return (.branch c.pos test body rest, after)
    else if c.isAt (.keyword .while_) then whileLoop fuel c
    else if c.isAt (.keyword .for_) then forLoop fuel c
    else if c.isAt (.keyword .fn) then function fuel c
    else if c.isAt (.keyword .break_) then c.exit
    else if c.isAt (.keyword .return_) then c.ret
    else if c.atName && c.secondIs (.symbol .assign) then do
      let (b, c) ← c.assignment
      return (.assign b, c)
    else if c.atName && c.secondIs (.symbol .colon) then c.callStmt
    else forEach fuel c

/-- Statements up to one of the given terminals, which is left standing. -/
def stmtsUntil : Nat → List Terminal → Cursor → Reading (List Stmt × Cursor)
  | 0, _, _ => .error .outOfFuel
  | fuel + 1, terminals, c =>
    if terminals.any c.isAt then
      return ([], c)
    else if c.atEnd then
      .error (c.missing (.terminal (.keyword .stop)))
    else do
      let (s, c) ← stmt fuel c
      let (others, c) ← stmtsUntil fuel terminals c
      return (s :: others, c)

/-- Statements and the `stop` that closes them. -/
def block : Nat → Cursor → Reading (List Stmt × Cursor)
  | 0, _ => .error .outOfFuel
  | fuel + 1, c => do
    let (body, c) ← stmtsUntil fuel [.keyword .stop] c
    let c ← c.expect (.keyword .stop)
    return (body, c)

/-- A branch: its test, its body and what follows the body. -/
def branch : Nat → Cursor → Reading ((Expr × List Stmt × Else) × Cursor)
  | 0, _ => .error .outOfFuel
  | fuel + 1, c => do
    let c ← c.expect (.keyword .if_)
    let (test, c) ← c.headerExpr
    let c ← c.expect (.symbol .colon)
    let (body, c) ← stmtsUntil fuel [.keyword .stop, .keyword .else_] c
    let c := if c.isAt (.keyword .stop) && c.secondIs (.keyword .else_) then c.next else c
    if c.isAt (.keyword .else_) then
      let c := c.next
      if c.isAt (.keyword .if_) then
        let ((test', body', rest), after) ← branch fuel c
        return ((test, body, .branch c.pos test' body' rest), after)
      else
        let (closing, c) ← block fuel c
        return ((test, body, .body closing), c)
    else
      let c ← c.expect (.keyword .stop)
      return ((test, body, .absent), c)

/-- A loop on a test. -/
def whileLoop : Nat → Cursor → Reading (Stmt × Cursor)
  | 0, _ => .error .outOfFuel
  | fuel + 1, c => do
    let start := c.pos
    let c ← c.expect (.keyword .while_)
    let (test, c) ← c.headerExpr
    let c ← c.expect (.symbol .colon)
    let (body, c) ← block fuel c
    return (.whileLoop start test body, c)

/-- A loop with a declaration, a test and an update in its header. -/
def forLoop : Nat → Cursor → Reading (Stmt × Cursor)
  | 0, _ => .error .outOfFuel
  | fuel + 1, c => do
    let start := c.pos
    let c ← c.expect (.keyword .for_)
    let (init, c) ← c.declaration
    let c ← c.expect (.keyword .stop)
    let (test, c) ← c.headerExpr
    let c ← c.expect (.keyword .fastfwd)
    let (update, c) ← c.assignment
    let (body, c) ← block fuel c
    return (.forLoop start init test update body, c)

/-- A loop over the parts of a collection. -/
def forEach : Nat → Cursor → Reading (Stmt × Cursor)
  | 0, _ => .error .outOfFuel
  | fuel + 1, c => do
    let start := c.pos
    let (collection, after) ← (c.withHeader true).indexed
    let c := after.withHeader c.inHeader
    let c ← c.expect (.symbol .dot)
    let c ← c.expect (.keyword .loop)
    let (name, c) ← c.expectName
    let c ← c.expect (.symbol .colon)
    let (body, c) ← block fuel c
    return (.forEach start collection name body, c)

/-- The declaration of a function. -/
def function : Nat → Cursor → Reading (Stmt × Cursor)
  | 0, _ => .error .outOfFuel
  | fuel + 1, c => do
    let start := c.pos
    let c ← c.expect (.keyword .fn)
    let (name, c) ← c.expectName
    let (parameters, c) ← params c
    let c ← c.expect (.symbol .colon)
    let (body, c) ← block fuel c
    return (.function start name parameters body, c)

end

/-- Statements up to the end of the input. -/
def stmts : Nat → Cursor → Reading (List Stmt × Cursor)
  | 0, _ => .error .outOfFuel
  | fuel + 1, c =>
    if c.atEnd then
      return ([], c)
    else do
      let (s, c) ← stmt c.fuelFor c
      let (others, c) ← stmts fuel c
      return (s :: others, c)

end ReadStmt

namespace Cursor

/-- Reads a statement. -/
def stmt (c : Cursor) : Reading (Stmt × Cursor) := ReadStmt.stmt c.fuelFor c

/-- Reads statements up to one of the given terminals. -/
def stmtsUntil (c : Cursor) (terminals : List Terminal) : Reading (List Stmt × Cursor) :=
  ReadStmt.stmtsUntil c.fuelFor terminals c

/-- Reads statements and the `stop` that closes them. -/
def block (c : Cursor) : Reading (List Stmt × Cursor) := ReadStmt.block c.fuelFor c

/-- Reads a branch. -/
def branch (c : Cursor) : Reading (Stmt × Cursor) := do
  let ((test, body, rest), after) ← ReadStmt.branch c.fuelFor c
  return (.branch c.pos test body rest, after)

/-- Reads a loop on a test. -/
def whileLoop (c : Cursor) : Reading (Stmt × Cursor) := ReadStmt.whileLoop c.fuelFor c

/-- Reads a loop with a header of three parts. -/
def forLoop (c : Cursor) : Reading (Stmt × Cursor) := ReadStmt.forLoop c.fuelFor c

/-- Reads a loop over a collection. -/
def forEach (c : Cursor) : Reading (Stmt × Cursor) := ReadStmt.forEach c.fuelFor c

/-- Reads the declaration of a function. -/
def function (c : Cursor) : Reading (Stmt × Cursor) := ReadStmt.function c.fuelFor c

/-- Reads a whole program and leaves the cursor in front of the end mark. -/
def program (c : Cursor) : Reading (Program × Cursor) := do
  let (statements, c) ← ReadStmt.stmts c.fuelFor c
  return (⟨statements⟩, c)

end Cursor

/-- Why a source text is no program. -/
inductive ParseFault where
  | scan (fault : ScanFault)
  | read (fault : ReadFault)
deriving DecidableEq, Repr, Inhabited

/-- The surface tree of a source text. -/
def parse (source : String) : Except ParseFault Program :=
  match tokenize source with
  | .error f => .error (.scan f)
  | .ok tokens =>
    match (Cursor.ofTokens tokens).program with
    | .error f => .error (.read f)
    | .ok (program, _) => .ok program

end Squishc.Surface
