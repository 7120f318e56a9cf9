import Squishc.Surface.ReadStmt

/-!
# Printing surface trees

A surface tree is printed as lexemes.  Every expression that stands inside
another expression or in a statement is put in parentheses, an array of one
element ends in a comma, and a branch with an alternative closes its body before
the `else`.

Not every tree has a printed form that can be read again: a numeral has no sign
and a limited number of digits, operators have to be those of the grammar, and an
alternative that begins with a branch would be read as a further branch.
`Printable` says which trees are left.  Names may be any texts, since a lexeme
tells names and reserved words apart.

The text of a float is up to the caller; it has to be one that is read as that
float.

Main definitions:

- `Program.lexemes`: the lexemes of a program.
- `Program.Printable`: the programs whose lexemes can be read again.
- `Program.unplaced`: a program without its places.
-/

namespace Squishc

/-- The lexeme of an operator. -/
def Op.lexeme : Op → Lexeme
  | add => .symbol .plus
  | sub => .symbol .minus
  | mul => .symbol .star
  | div => .symbol .slash
  | mod => .symbol .percent
  | pow => .symbol .pow
  | lt => .symbol .lt
  | le => .symbol .le
  | eq => .symbol .eq
  | ne => .symbol .ne
  | ge => .symbol .ge
  | gt => .symbol .gt
  | conj => .keyword .and_
  | disj => .keyword .or_
  | not => .symbol .bang
  | other text => .name text

/-- Whether an operator stands in front of an operand. -/
def Op.isSign : Op → Bool
  | sub | not => true
  | _ => false

/-- Whether an operator stands between two operands. -/
def Op.isInner : Op → Bool
  | not | other _ => false
  | _ => true

namespace Surface

/-! ## Lexemes -/

/-- Lexemes in parentheses. -/
def wrap (lexemes : List Lexeme) : List Lexeme :=
  .symbol .openParen :: (lexemes ++ [.symbol .closeParen])

mutual

/-- The lexemes of an expression. -/
def Expr.lexemes (floatText : Float → String) : Expr → List Lexeme
  | .int _ value => [.int (toString value)]
  | .float _ value => [.float (floatText value)]
  | .bool _ value => [.keyword (if value then .true_ else .false_)]
  | .string _ value => [.string value]
  | .var _ name => [.name name]
  | .array _ elements =>
    .symbol .openBracket :: (elementLexemes floatText elements ++ [.symbol .closeBracket])
  | .index _ array index =>
    wrap (array.lexemes floatText) ++
      .symbol .openBracket :: (wrap (index.lexemes floatText) ++ [.symbol .closeBracket])
  | .call _ callee args => .name callee :: .symbol .colon :: argLexemes floatText args
  | .unary _ op operand => op.lexeme :: wrap (operand.lexemes floatText)
  | .binary _ op left right =>
    wrap (left.lexemes floatText) ++ op.lexeme :: wrap (right.lexemes floatText)
  | .conditional _ consequent test alternate =>
    wrap (consequent.lexemes floatText) ++ .keyword .if_ :: (wrap (test.lexemes floatText) ++
      .keyword .otherwise :: wrap (alternate.lexemes floatText))
  | .stray _ => []

/-- The lexemes of the arguments of a call. -/
def argLexemes (floatText : Float → String) : List Expr → List Lexeme
  | [] => []
  | e :: rest => wrap (e.lexemes floatText) ++ moreLexemes floatText rest

/-- The lexemes of expressions behind a first one. -/
def moreLexemes (floatText : Float → String) : List Expr → List Lexeme
  | [] => []
  | e :: rest => .symbol .comma :: (wrap (e.lexemes floatText) ++ moreLexemes floatText rest)

/-- The lexemes of the elements of an array. -/
def elementLexemes (floatText : Float → String) : List Expr → List Lexeme
  | [] => []
  | e :: rest =>
    wrap (e.lexemes floatText) ++
      (if rest.isEmpty then [.symbol .comma] else moreLexemes floatText rest)

end

/-- The lexemes of a binding, from its name on. -/
def Binding.lexemes (floatText : Float → String) (b : Binding) : List Lexeme :=
  .name b.name :: .symbol .assign :: (wrap (b.value.lexemes floatText) ++ [.symbol .semicolon])

/-- The lexemes of parameters behind a first one. -/
def moreParamLexemes : List Param → List Lexeme
  | [] => []
  | p :: rest => .symbol .comma :: .name p.name :: moreParamLexemes rest

/-- The lexemes of the parameters of a function. -/
def paramLexemes : List Param → List Lexeme
  | [] => []
  | p :: rest => .name p.name :: moreParamLexemes rest

mutual

/-- The lexemes of a statement. -/
def Stmt.lexemes (floatText : Float → String) : Stmt → List Lexeme
  | .print _ value =>
    .keyword .speak :: (wrap (value.lexemes floatText) ++ [.symbol .semicolon])
  | .declare b => .keyword .pencil :: b.lexemes floatText
  | .assign b => b.lexemes floatText
  | .branch _ test body rest =>
    .keyword .if_ :: (wrap (test.lexemes floatText) ++
      .symbol .colon :: (stmtLexemes floatText body ++ rest.lexemes floatText))
  | .whileLoop _ test body =>
    .keyword .while_ :: (wrap (test.lexemes floatText) ++
      .symbol .colon :: (stmtLexemes floatText body ++ [.keyword .stop]))
  | .forLoop _ init test update body =>
    .keyword .for_ :: .keyword .pencil :: (init.lexemes floatText ++
      .keyword .stop :: (wrap (test.lexemes floatText) ++
        .keyword .fastfwd :: (update.lexemes floatText ++
          (stmtLexemes floatText body ++ [.keyword .stop]))))
  | .forEach _ collection name body =>
    wrap (collection.lexemes floatText) ++ .symbol .dot :: .keyword .loop :: .name name ::
      .symbol .colon :: (stmtLexemes floatText body ++ [.keyword .stop])
  | .function _ name params body =>
    .keyword .fn :: .name name :: (paramLexemes params ++
      .symbol .colon :: (stmtLexemes floatText body ++ [.keyword .stop]))
  | .exit _ => [.keyword .break_, .symbol .semicolon]
  | .ret _ none => [.keyword .return_, .symbol .semicolon]
  | .ret _ (some value) =>
    .keyword .return_ :: (wrap (value.lexemes floatText) ++ [.symbol .semicolon])
  | .call _ callee args =>
    .name callee :: .symbol .colon :: (argLexemes floatText args ++ [.symbol .semicolon])
  | .stray _ => []

/-- The lexemes of some statements, one after the other. -/
def stmtLexemes (floatText : Float → String) : List Stmt → List Lexeme
  | [] => []
  | s :: rest => s.lexemes floatText ++ stmtLexemes floatText rest

/-- The lexemes of what follows the body of a branch. -/
def Else.lexemes (floatText : Float → String) : Else → List Lexeme
  | .absent => [.keyword .stop]
  | .body body =>
    .keyword .stop :: .keyword .else_ :: (stmtLexemes floatText body ++ [.keyword .stop])
  | .branch _ test body rest =>
    .keyword .stop :: .keyword .else_ :: .keyword .if_ :: (wrap (test.lexemes floatText) ++
      .symbol .colon :: (stmtLexemes floatText body ++ rest.lexemes floatText))
  | .stray _ => []

end

/-- The lexemes of a program. -/
def Program.lexemes (floatText : Float → String) (p : Program) : List Lexeme :=
  stmtLexemes floatText p.statements

/-! ## Printable trees -/

mutual

/-- An expression whose lexemes can be read again. -/
def Expr.Printable (floatText : Float → String) : Expr → Prop
  | .int _ value => 0 ≤ value ∧ (toString value).length ≤ digitLimit
  | .float _ value => floatOfNumeral (floatText value) = value
  | .bool _ _ | .string _ _ | .var _ _ => True
  | .array _ elements => PrintableAll floatText elements
  | .index _ array index => array.Printable floatText ∧ index.Printable floatText
  | .call _ _ args => PrintableAll floatText args
  | .unary _ op operand => op.isSign = true ∧ operand.Printable floatText
  | .binary _ op left right =>
    op.isInner = true ∧ left.Printable floatText ∧ right.Printable floatText
  | .conditional _ consequent test alternate =>
    consequent.Printable floatText ∧ test.Printable floatText ∧ alternate.Printable floatText
  | .stray _ => False

/-- Some expressions whose lexemes can be read again. -/
def PrintableAll (floatText : Float → String) : List Expr → Prop
  | [] => True
  | e :: rest => e.Printable floatText ∧ PrintableAll floatText rest

end

/-- Whether some statements begin with a branch. -/
def startsWithBranch : List Stmt → Bool
  | .branch _ _ _ _ :: _ => true
  | _ => false

mutual

/-- A statement whose lexemes can be read again. -/
def Stmt.Printable (floatText : Float → String) : Stmt → Prop
  | .print _ value => value.Printable floatText
  | .declare b => b.value.Printable floatText
  | .assign b => b.value.Printable floatText
  | .branch _ test body rest =>
    test.Printable floatText ∧ AllPrintable floatText body ∧ rest.Printable floatText
  | .whileLoop _ test body => test.Printable floatText ∧ AllPrintable floatText body
  | .forLoop _ init test update body =>
    init.value.Printable floatText ∧ test.Printable floatText ∧
      update.value.Printable floatText ∧ AllPrintable floatText body
  | .forEach _ collection _ body => collection.Printable floatText ∧ AllPrintable floatText body
  | .function _ _ _ body => AllPrintable floatText body
  | .exit _ => True
  | .ret _ none => True
  | .ret _ (some value) => value.Printable floatText
  | .call _ _ args => PrintableAll floatText args
  | .stray _ => False

/-- Some statements whose lexemes can be read again. -/
def AllPrintable (floatText : Float → String) : List Stmt → Prop
  | [] => True
  | s :: rest => s.Printable floatText ∧ AllPrintable floatText rest

/-- What follows the body of a branch, if its lexemes can be read again. -/
def Else.Printable (floatText : Float → String) : Else → Prop
  | .absent => True
  | .body body => startsWithBranch body = false ∧ AllPrintable floatText body
  | .branch _ test body rest =>
    test.Printable floatText ∧ AllPrintable floatText body ∧ rest.Printable floatText
  | .stray _ => False

end

/-- A program whose lexemes can be read again. -/
def Program.Printable (floatText : Float → String) (p : Program) : Prop :=
  AllPrintable floatText p.statements

/-! ## Trees without places -/

mutual

/-- An expression without its places. -/
def Expr.unplaced : Expr → Expr
  | .int _ value => .int .unknown value
  | .float _ value => .float .unknown value
  | .bool _ value => .bool .unknown value
  | .string _ value => .string .unknown value
  | .var _ name => .var .unknown name
  | .array _ elements => .array .unknown (unplacedAll elements)
  | .index _ array index => .index .unknown array.unplaced index.unplaced
  | .call _ callee args => .call .unknown callee (unplacedAll args)
  | .unary _ op operand => .unary .unknown op operand.unplaced
  | .binary _ op left right => .binary .unknown op left.unplaced right.unplaced
  | .conditional _ consequent test alternate =>
    .conditional .unknown consequent.unplaced test.unplaced alternate.unplaced
  | .stray kind => .stray kind

/-- Some expressions without their places. -/
def unplacedAll : List Expr → List Expr
  | [] => []
  | e :: rest => e.unplaced :: unplacedAll rest

end

/-- A binding without its places. -/
def Binding.unplaced (b : Binding) : Binding := ⟨.unknown, b.name, b.value.unplaced⟩

/-- A parameter without its place. -/
def Param.unplaced (p : Param) : Param := ⟨.unknown, p.name⟩

mutual

/-- A statement without its places. -/
def Stmt.unplaced : Stmt → Stmt
  | .print _ value => .print .unknown value.unplaced
  | .declare b => .declare b.unplaced
  | .assign b => .assign b.unplaced
  | .branch _ test body rest => .branch .unknown test.unplaced (allUnplaced body) rest.unplaced
  | .whileLoop _ test body => .whileLoop .unknown test.unplaced (allUnplaced body)
  | .forLoop _ init test update body =>
    .forLoop .unknown init.unplaced test.unplaced update.unplaced (allUnplaced body)
  | .forEach _ collection name body =>
    .forEach .unknown collection.unplaced name (allUnplaced body)
  | .function _ name params body =>
    .function .unknown name (params.map Param.unplaced) (allUnplaced body)
  | .exit _ => .exit .unknown
  | .ret _ value => .ret .unknown (value.map Expr.unplaced)
  | .call _ callee args => .call .unknown callee (unplacedAll args)
  | .stray kind => .stray kind

/-- Some statements without their places. -/
def allUnplaced : List Stmt → List Stmt
  | [] => []
  | s :: rest => s.unplaced :: allUnplaced rest

/-- What follows the body of a branch, without its places. -/
def Else.unplaced : Else → Else
  | .absent => .absent
  | .body body => .body (allUnplaced body)
  | .branch _ test body rest => .branch .unknown test.unplaced (allUnplaced body) rest.unplaced
  | .stray kind => .stray kind

end

/-- A program without its places. -/
def Program.unplaced (p : Program) : Program := ⟨allUnplaced p.statements⟩

end Surface

end Squishc
