import Squishc.Surface.Cursor

/-!
# Reading expressions

One reader for each production of the grammar of expressions:

- an expression is a disjunction, or a conditional `a if t otherwise b`;
- disjunctions, conjunctions, sums and products are chains that group to the
  left, and a comparison relates two sums and does not chain;
- a power binds tighter than a sign on its left and looser than one on its
  right;
- indexing binds tightest;
- `[e]` groups, while `[]`, `[e,]` and `[e, e]` are arrays.

The readers recurse on a fuel that bounds the depth of calls.  The fuel of
`fuelFor` is enough for the tokens that are left, since no reader nests more than
a fixed number of calls without taking a token.
-/

namespace Squishc.Surface

/-- The levels of binary operators, from loose to tight. -/
inductive Level where
  | disjunction
  | conjunction
  | comparison
  | sum
  | product
deriving DecidableEq, Repr, Inhabited

namespace Level

/-- The next tighter level, if there is one. -/
def tighter? : Level → Option Level
  | disjunction => some conjunction
  | conjunction => some comparison
  | comparison => some sum
  | sum => some product
  | product => none

/-- Whether operators of a level may follow one another. -/
def chains : Level → Bool
  | comparison => false
  | _ => true

/-- The operator that a lexeme is on a level. -/
def op? : Level → Lexeme → Option Op
  | disjunction, .keyword .or_ => some .disj
  | conjunction, .keyword .and_ => some .conj
  | comparison, .symbol .lt => some .lt
  | comparison, .symbol .le => some .le
  | comparison, .symbol .eq => some .eq
  | comparison, .symbol .ne => some .ne
  | comparison, .symbol .ge => some .ge
  | comparison, .symbol .gt => some .gt
  | sum, .symbol .plus => some .add
  | sum, .symbol .minus => some .sub
  | product, .symbol .star => some .mul
  | product, .symbol .slash => some .div
  | product, .symbol .percent => some .mod
  | _, _ => none

end Level

/-- The sign that a lexeme is in front of an operand. -/
def signOp? : Lexeme → Option Op
  | .symbol .minus => some .sub
  | .symbol .bang => some .not
  | _ => none

/-- The value of a float numeral. -/
def floatOfNumeral (numeral : String) : Float :=
  match Number.Decimal.read? numeral.toList with
  | some d => d.toFloat
  | none => 0

namespace ReadExpr

mutual

/-- An expression. -/
def expr : Nat → Cursor → Reading (Expr × Cursor)
  | 0, _ => .error .outOfFuel
  | fuel + 1, c => do
    let (e, c) ← level fuel .disjunction c
    if c.isAt (.keyword .if_) then
      let (test, c) ← level fuel .disjunction c.next
      let c ← c.expect (.keyword .otherwise)
      let (alternate, c) ← expr fuel c
      return (.conditional e.pos e test alternate, c)
    else
      return (e, c)

/-- An expression between brackets, where calls are always allowed. -/
def nested : Nat → Cursor → Reading (Expr × Cursor)
  | 0, _ => .error .outOfFuel
  | fuel + 1, c => do
    let (e, after) ← expr fuel (c.withHeader false)
    return (e, after.withHeader c.inHeader)

/-- An expression of binary operators of one level or tighter ones. -/
def level : Nat → Level → Cursor → Reading (Expr × Cursor)
  | 0, _, _ => .error .outOfFuel
  | fuel + 1, l, c => do
    let (left, c) ← operand fuel l c
    levelRest fuel l left c

/-- An operand of a level. -/
def operand : Nat → Level → Cursor → Reading (Expr × Cursor)
  | 0, _, _ => .error .outOfFuel
  | fuel + 1, l, c =>
    match l.tighter? with
    | some tighter => level fuel tighter c
    | none => unary fuel c

/-- The operators of a level behind a first operand. -/
def levelRest : Nat → Level → Expr → Cursor → Reading (Expr × Cursor)
  | 0, _, _, _ => .error .outOfFuel
  | fuel + 1, l, left, c =>
    match c.lexeme?.bind l.op? with
    | none => return (left, c)
    | some op => do
      let (right, c) ← operand fuel l c.next
      let e := Expr.binary left.pos op left right
      if l.chains then levelRest fuel l e c else return (e, c)

/-- Signs in front of a power. -/
def unary : Nat → Cursor → Reading (Expr × Cursor)
  | 0, _ => .error .outOfFuel
  | fuel + 1, c =>
    match c.lexeme?.bind signOp? with
    | some op => do
      let (e, after) ← unary fuel c.next
      return (.unary c.pos op e, after)
    | none => power fuel c

/-- A power, or its base alone. -/
def power : Nat → Cursor → Reading (Expr × Cursor)
  | 0, _ => .error .outOfFuel
  | fuel + 1, c => do
    let (base, c) ← indexed fuel c
    if c.isAt (.symbol .pow) then
      let (e, c) ← unary fuel c.next
      return (.binary base.pos .pow base e, c)
    else
      return (base, c)

/-- A primary expression and its indexes. -/
def indexed : Nat → Cursor → Reading (Expr × Cursor)
  | 0, _ => .error .outOfFuel
  | fuel + 1, c => do
    let (e, c) ← primary fuel c
    indexes fuel e c

/-- The indexes behind an expression. -/
def indexes : Nat → Expr → Cursor → Reading (Expr × Cursor)
  | 0, _, _ => .error .outOfFuel
  | fuel + 1, e, c =>
    if c.isAt (.symbol .openBracket) then do
      let (i, c) ← nested fuel c.next
      let c ← c.expect (.symbol .closeBracket)
      indexes fuel (.index e.pos e i) c
    else
      return (e, c)

/-- A literal, a name, a call, or an expression between brackets. -/
def primary : Nat → Cursor → Reading (Expr × Cursor)
  | 0, _ => .error .outOfFuel
  | fuel + 1, c =>
    match c.lexeme? with
    | some (.int digits) =>
      if digits.length ≤ digitLimit then
        return (.int c.pos (Number.natOfDigits digits.toList), c.next)
      else
        .error .digitLimit
    | some (.float numeral) => return (.float c.pos (floatOfNumeral numeral), c.next)
    | some (.string value) => return (.string c.pos value, c.next)
    | some (.keyword .true_) => return (.bool c.pos true, c.next)
    | some (.keyword .false_) => return (.bool c.pos false, c.next)
    | some (.name text) =>
      if !c.inHeader && c.secondIs (.symbol .colon) then do
        let ((callee, args), after) ← call fuel c
        return (.call c.pos callee args, after)
      else
        return (.var c.pos text, c.next)
    | some (.symbol .openParen) => do
      let (e, c) ← nested fuel c.next
      let c ← c.expect (.symbol .closeParen)
      return (e, c)
    | some (.symbol .openBracket) => brackets fuel c
    | _ => .error (c.missing .expression)

/-- A call: the name of a function, a colon and arguments. -/
def call : Nat → Cursor → Reading ((String × List Expr) × Cursor)
  | 0, _ => .error .outOfFuel
  | fuel + 1, c => do
    let (callee, c) ← c.expectName
    let c ← c.expect (.symbol .colon)
    if c.atExpr then
      let (first, c) ← expr fuel c
      let (others, c) ← arguments fuel c
      return ((callee, first :: others), c)
    else
      return ((callee, []), c)

/-- The arguments behind a first one, each with its comma. -/
def arguments : Nat → Cursor → Reading (List Expr × Cursor)
  | 0, _ => .error .outOfFuel
  | fuel + 1, c =>
    if c.isAt (.symbol .comma) then do
      let (e, c) ← expr fuel c.next
      let (others, c) ← arguments fuel c
      return (e :: others, c)
    else
      return ([], c)

/-- Square brackets: a group or an array. -/
def brackets : Nat → Cursor → Reading (Expr × Cursor)
  | 0, _ => .error .outOfFuel
  | fuel + 1, c => do
    let start := c.pos
    let c ← c.expect (.symbol .openBracket)
    if c.isAt (.symbol .closeBracket) then
      return (.array start [], c.next)
    else
      let (first, c) ← nested fuel c
      if c.isAt (.symbol .comma) then
        let (others, c) ← elements fuel true c
        let c ← c.expect (.symbol .closeBracket)
        return (.array start (first :: others), c)
      else
        let c ← c.expect (.symbol .closeBracket)
        return (first, c)

/-- The elements behind a first one, each with its comma.  The comma after a
single element may be the last. -/
def elements : Nat → Bool → Cursor → Reading (List Expr × Cursor)
  | 0, _, _ => .error .outOfFuel
  | fuel + 1, single, c =>
    if c.isAt (.symbol .comma) then
      if single && c.next.isAt (.symbol .closeBracket) then
        return ([], c.next)
      else do
        let (e, c) ← nested fuel c.next
        let (others, c) ← elements fuel false c
        return (e :: others, c)
    else
      return ([], c)

end

end ReadExpr

namespace Cursor

/-- Enough fuel for the tokens that are left. -/
def fuelFor (c : Cursor) : Nat := 32 * (c.rest.length + 1)

/-- Reads an expression. -/
def expr (c : Cursor) : Reading (Expr × Cursor) := ReadExpr.expr c.fuelFor c

/-- Reads an expression in which calls are allowed. -/
def nested (c : Cursor) : Reading (Expr × Cursor) := ReadExpr.nested c.fuelFor c

/-- Reads the expression of a header, in which a colon ends the expression. -/
def headerExpr (c : Cursor) : Reading (Expr × Cursor) := do
  let (e, after) ← (c.withHeader true).expr
  return (e, after.withHeader c.inHeader)

/-- Reads an expression of binary operators of one level or tighter ones. -/
def level (c : Cursor) (l : Level) : Reading (Expr × Cursor) := ReadExpr.level c.fuelFor l c

/-- Reads signs and a power. -/
def unary (c : Cursor) : Reading (Expr × Cursor) := ReadExpr.unary c.fuelFor c

/-- Reads a power. -/
def power (c : Cursor) : Reading (Expr × Cursor) := ReadExpr.power c.fuelFor c

/-- Reads a primary expression and its indexes. -/
def indexed (c : Cursor) : Reading (Expr × Cursor) := ReadExpr.indexed c.fuelFor c

/-- Reads a primary expression. -/
def primary (c : Cursor) : Reading (Expr × Cursor) := ReadExpr.primary c.fuelFor c

/-- Reads a group or an array in square brackets. -/
def brackets (c : Cursor) : Reading (Expr × Cursor) := ReadExpr.brackets c.fuelFor c

/-- Reads a call and gives the callee and the arguments. -/
def call (c : Cursor) : Reading ((String × List Expr) × Cursor) := ReadExpr.call c.fuelFor c

end Cursor

end Squishc.Surface
