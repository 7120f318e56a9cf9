import Squishc.Surface.ReadStmt

/-!
# The grammar

The productions of the language, as relations between tokens and the trees that
they derive.  A tree carries the places of its tokens: a statement that of its
first token, an operation that of its left operand.  Parentheses leave no trace
in a tree, so what stands between them keeps its own place.

Expressions are derived in or outside a header.  In a header a name with a colon
behind it is no call; between parentheses or square brackets it is one again.

Main definitions:

- `IsExpr`, with one relation for each level of binding below it: the
  expressions.
- `IsStmt`, `IsStmts`, `IsBlock`, `IsBranch`: the statements.
-/

namespace Squishc.Surface

namespace Grammar

/-! ## Operators -/

/-- `CompareOp = '<' | '<=' | '==' | '!=' | '>=' | '>'` -/
inductive CompareOp : Lexeme → Op → Prop
  | lt : CompareOp (.symbol .lt) .lt
  | le : CompareOp (.symbol .le) .le
  | eq : CompareOp (.symbol .eq) .eq
  | ne : CompareOp (.symbol .ne) .ne
  | ge : CompareOp (.symbol .ge) .ge
  | gt : CompareOp (.symbol .gt) .gt

/-- `SumOp = '+' | '-'` -/
inductive SumOp : Lexeme → Op → Prop
  | plus : SumOp (.symbol .plus) .add
  | minus : SumOp (.symbol .minus) .sub

/-- `ProductOp = '*' | '/' | '%'` -/
inductive ProductOp : Lexeme → Op → Prop
  | star : ProductOp (.symbol .star) .mul
  | slash : ProductOp (.symbol .slash) .div
  | percent : ProductOp (.symbol .percent) .mod

/-- `SignOp = '-' | '!'` -/
inductive SignOp : Lexeme → Op → Prop
  | minus : SignOp (.symbol .minus) .sub
  | bang : SignOp (.symbol .bang) .not

/-! ## Expressions -/

mutual

/-- `Expr = Or ('if' Or 'otherwise' Expr)?` -/
inductive IsExpr : Bool → List Token → Expr → Prop
  | plain {header : Bool} {ts : List Token} {e : Expr} :
      IsOr header ts e → IsExpr header ts e
  | conditional {header : Bool} {ts us vs : List Token} {if_ otherwise : Token}
      {consequent test alternate : Expr} :
      IsOr header ts consequent → if_.lexeme = .keyword .if_ →
      IsOr header us test → otherwise.lexeme = .keyword .otherwise →
      IsExpr header vs alternate →
      IsExpr header (ts ++ if_ :: (us ++ otherwise :: vs))
        (.conditional consequent.pos consequent test alternate)

/-- `Or = And ('or' And)*`, grouped to the left. -/
inductive IsOr : Bool → List Token → Expr → Prop
  | plain {header : Bool} {ts : List Token} {e : Expr} :
      IsAnd header ts e → IsOr header ts e
  | chain {header : Bool} {ts us : List Token} {or_ : Token} {left right : Expr} :
      IsOr header ts left → or_.lexeme = .keyword .or_ → IsAnd header us right →
      IsOr header (ts ++ or_ :: us) (.binary left.pos .disj left right)

/-- `And = Compare ('and' Compare)*`, grouped to the left. -/
inductive IsAnd : Bool → List Token → Expr → Prop
  | plain {header : Bool} {ts : List Token} {e : Expr} :
      IsCompare header ts e → IsAnd header ts e
  | chain {header : Bool} {ts us : List Token} {and_ : Token} {left right : Expr} :
      IsAnd header ts left → and_.lexeme = .keyword .and_ → IsCompare header us right →
      IsAnd header (ts ++ and_ :: us) (.binary left.pos .conj left right)

/-- `Compare = Sum (CompareOp Sum)?`, which does not chain. -/
inductive IsCompare : Bool → List Token → Expr → Prop
  | plain {header : Bool} {ts : List Token} {e : Expr} :
      IsSum header ts e → IsCompare header ts e
  | pair {header : Bool} {ts us : List Token} {mark : Token} {op : Op} {left right : Expr} :
      IsSum header ts left → CompareOp mark.lexeme op → IsSum header us right →
      IsCompare header (ts ++ mark :: us) (.binary left.pos op left right)

/-- `Sum = Product (SumOp Product)*`, grouped to the left. -/
inductive IsSum : Bool → List Token → Expr → Prop
  | plain {header : Bool} {ts : List Token} {e : Expr} :
      IsProduct header ts e → IsSum header ts e
  | chain {header : Bool} {ts us : List Token} {mark : Token} {op : Op} {left right : Expr} :
      IsSum header ts left → SumOp mark.lexeme op → IsProduct header us right →
      IsSum header (ts ++ mark :: us) (.binary left.pos op left right)

/-- `Product = Unary (ProductOp Unary)*`, grouped to the left. -/
inductive IsProduct : Bool → List Token → Expr → Prop
  | plain {header : Bool} {ts : List Token} {e : Expr} :
      IsUnary header ts e → IsProduct header ts e
  | chain {header : Bool} {ts us : List Token} {mark : Token} {op : Op} {left right : Expr} :
      IsProduct header ts left → ProductOp mark.lexeme op → IsUnary header us right →
      IsProduct header (ts ++ mark :: us) (.binary left.pos op left right)

/-- `Unary = SignOp Unary | Power` -/
inductive IsUnary : Bool → List Token → Expr → Prop
  | plain {header : Bool} {ts : List Token} {e : Expr} :
      IsPower header ts e → IsUnary header ts e
  | signed {header : Bool} {ts : List Token} {mark : Token} {op : Op} {operand : Expr} :
      SignOp mark.lexeme op → IsUnary header ts operand →
      IsUnary header (mark :: ts) (.unary mark.pos op operand)

/-- `Power = Postfix ('**' Unary)?` -/
inductive IsPower : Bool → List Token → Expr → Prop
  | plain {header : Bool} {ts : List Token} {e : Expr} :
      IsPostfix header ts e → IsPower header ts e
  | raised {header : Bool} {ts us : List Token} {mark : Token} {base exponent : Expr} :
      IsPostfix header ts base → mark.lexeme = .symbol .pow → IsUnary header us exponent →
      IsPower header (ts ++ mark :: us) (.binary base.pos .pow base exponent)

/-- `Postfix = Primary ('[' Expr ']')*` -/
inductive IsPostfix : Bool → List Token → Expr → Prop
  | plain {header : Bool} {ts : List Token} {e : Expr} :
      IsPrimary header ts e → IsPostfix header ts e
  | index {header : Bool} {ts us : List Token} {opening closing : Token} {array index : Expr} :
      IsPostfix header ts array → opening.lexeme = .symbol .openBracket →
      IsExpr false us index → closing.lexeme = .symbol .closeBracket →
      IsPostfix header (ts ++ opening :: (us ++ [closing])) (.index array.pos array index)

/-- A primary expression: a literal, a name, a call outside a header, a group in
parentheses or square brackets, or an array `[]`, `[e,]`, `[e, e, ..]`. -/
inductive IsPrimary : Bool → List Token → Expr → Prop
  | int {header : Bool} {t : Token} {digits : String} :
      t.lexeme = .int digits → digits.length ≤ digitLimit →
      IsPrimary header [t] (.int t.pos (Number.natOfDigits digits.toList))
  | float {header : Bool} {t : Token} {numeral : String} :
      t.lexeme = .float numeral → IsPrimary header [t] (.float t.pos (floatOfNumeral numeral))
  | string {header : Bool} {t : Token} {value : String} :
      t.lexeme = .string value → IsPrimary header [t] (.string t.pos value)
  | true_ {header : Bool} {t : Token} :
      t.lexeme = .keyword .true_ → IsPrimary header [t] (.bool t.pos true)
  | false_ {header : Bool} {t : Token} :
      t.lexeme = .keyword .false_ → IsPrimary header [t] (.bool t.pos false)
  | var {header : Bool} {t : Token} {name : String} :
      t.lexeme = .name name → IsPrimary header [t] (.var t.pos name)
  | call {t : Token} {ts : List Token} {callee : String} {args : List Expr} :
      IsCall false (t :: ts) callee args → IsPrimary false (t :: ts) (.call t.pos callee args)
  | parens {header : Bool} {ts : List Token} {opening closing : Token} {e : Expr} :
      opening.lexeme = .symbol .openParen → IsExpr false ts e →
      closing.lexeme = .symbol .closeParen → IsPrimary header (opening :: (ts ++ [closing])) e
  | group {header : Bool} {ts : List Token} {opening closing : Token} {e : Expr} :
      opening.lexeme = .symbol .openBracket → IsExpr false ts e →
      closing.lexeme = .symbol .closeBracket → IsPrimary header (opening :: (ts ++ [closing])) e
  | emptyArray {header : Bool} {opening closing : Token} :
      opening.lexeme = .symbol .openBracket → closing.lexeme = .symbol .closeBracket →
      IsPrimary header [opening, closing] (.array opening.pos [])
  | oneElement {header : Bool} {ts : List Token} {opening comma closing : Token} {e : Expr} :
      opening.lexeme = .symbol .openBracket → IsExpr false ts e →
      comma.lexeme = .symbol .comma → closing.lexeme = .symbol .closeBracket →
      IsPrimary header (opening :: (ts ++ [comma, closing])) (.array opening.pos [e])
  | array {header : Bool} {ts : List Token} {opening closing : Token} {elements : List Expr} :
      opening.lexeme = .symbol .openBracket → IsExprs false ts elements →
      2 ≤ elements.length → closing.lexeme = .symbol .closeBracket →
      IsPrimary header (opening :: (ts ++ [closing])) (.array opening.pos elements)

/-- `Call = Ident ':' (Expr (',' Expr)*)?` -/
inductive IsCall : Bool → List Token → String → List Expr → Prop
  | bare {header : Bool} {name colon : Token} {callee : String} :
      name.lexeme = .name callee → colon.lexeme = .symbol .colon →
      IsCall header [name, colon] callee []
  | applied {header : Bool} {name colon : Token} {ts : List Token} {callee : String}
      {args : List Expr} :
      name.lexeme = .name callee → colon.lexeme = .symbol .colon → IsExprs header ts args →
      IsCall header (name :: colon :: ts) callee args

/-- `Exprs = Expr (',' Expr)*` -/
inductive IsExprs : Bool → List Token → List Expr → Prop
  | one {header : Bool} {ts : List Token} {e : Expr} :
      IsExpr header ts e → IsExprs header ts [e]
  | more {header : Bool} {ts us : List Token} {comma : Token} {e : Expr} {others : List Expr} :
      IsExpr header ts e → comma.lexeme = .symbol .comma → IsExprs header us others →
      IsExprs header (ts ++ comma :: us) (e :: others)

end

/-! ## Statements -/

/-- `Binding = Ident '=' Expr ';'`, placed by what comes before it. -/
inductive IsBinding : Bool → Pos → List Token → Binding → Prop
  | intro {header : Bool} {pos : Pos} {ts : List Token} {ident assign semicolon : Token}
      {name : String} {value : Expr} :
      ident.lexeme = .name name → assign.lexeme = .symbol .assign → IsExpr header ts value →
      semicolon.lexeme = .symbol .semicolon →
      IsBinding header pos (ident :: assign :: (ts ++ [semicolon])) ⟨pos, name, value⟩

/-- `VarDecl = 'pencil' Binding` -/
inductive IsDeclaration : Bool → List Token → Binding → Prop
  | intro {header : Bool} {pencil : Token} {ts : List Token} {b : Binding} :
      pencil.lexeme = .keyword .pencil → IsBinding header pencil.pos ts b →
      IsDeclaration header (pencil :: ts) b

/-- `AssignStmt = Binding` -/
inductive IsAssignment : Bool → List Token → Binding → Prop
  | intro {header : Bool} {t : Token} {ts : List Token} {b : Binding} :
      IsBinding header t.pos (t :: ts) b → IsAssignment header (t :: ts) b

/-- `Param = Ident` -/
inductive IsParam : List Token → Param → Prop
  | intro {t : Token} {name : String} : t.lexeme = .name name → IsParam [t] ⟨t.pos, name⟩

/-- `Params = (Param (',' Param)*)?` -/
inductive IsParams : List Token → List Param → Prop
  | none : IsParams [] []
  | one {ts : List Token} {p : Param} : IsParam ts p → IsParams ts [p]
  | more {ts us : List Token} {comma : Token} {p q : Param} {others : List Param} :
      IsParam ts p → comma.lexeme = .symbol .comma → IsParams us (q :: others) →
      IsParams (ts ++ comma :: us) (p :: q :: others)

/-- `Stop? = 'stop'?` -/
inductive IsOptionalStop : List Token → Prop
  | absent : IsOptionalStop []
  | present {stop : Token} : stop.lexeme = .keyword .stop → IsOptionalStop [stop]

mutual

/-- A statement.  Tests and the collection of a loop are headers. -/
inductive IsStmt : Bool → List Token → Stmt → Prop
  | print {header : Bool} {ts : List Token} {speak semicolon : Token} {value : Expr} :
      speak.lexeme = .keyword .speak → IsExpr header ts value →
      semicolon.lexeme = .symbol .semicolon →
      IsStmt header (speak :: (ts ++ [semicolon])) (.print speak.pos value)
  | declare {header : Bool} {ts : List Token} {b : Binding} :
      IsDeclaration header ts b → IsStmt header ts (.declare b)
  | assign {header : Bool} {ts : List Token} {b : Binding} :
      IsAssignment header ts b → IsStmt header ts (.assign b)
  | branch {header : Bool} {t : Token} {ts : List Token} {test : Expr} {body : List Stmt}
      {rest : Else} :
      IsBranch header (t :: ts) test body rest →
      IsStmt header (t :: ts) (.branch t.pos test body rest)
  | whileLoop {header : Bool} {ts us : List Token} {while_ colon : Token} {test : Expr}
      {body : List Stmt} :
      while_.lexeme = .keyword .while_ → IsExpr true ts test → colon.lexeme = .symbol .colon →
      IsBlock header us body →
      IsStmt header (while_ :: (ts ++ colon :: us)) (.whileLoop while_.pos test body)
  | forLoop {header : Bool} {ts us vs ws : List Token} {for_ stop fastfwd : Token}
      {init update : Binding} {test : Expr} {body : List Stmt} :
      for_.lexeme = .keyword .for_ → IsDeclaration header ts init →
      stop.lexeme = .keyword .stop → IsExpr true us test →
      fastfwd.lexeme = .keyword .fastfwd → IsAssignment header vs update →
      IsBlock header ws body →
      IsStmt header (for_ :: (ts ++ stop :: (us ++ fastfwd :: (vs ++ ws))))
        (.forLoop for_.pos init test update body)
  | forEach {header : Bool} {t dot loop ident colon : Token} {ts us : List Token}
      {collection : Expr} {name : String} {body : List Stmt} :
      IsPostfix true (t :: ts) collection → dot.lexeme = .symbol .dot →
      loop.lexeme = .keyword .loop → ident.lexeme = .name name →
      colon.lexeme = .symbol .colon → IsBlock header us body →
      IsStmt header (t :: (ts ++ dot :: loop :: ident :: colon :: us))
        (.forEach t.pos collection name body)
  | function {header : Bool} {fn ident colon : Token} {ts us : List Token} {name : String}
      {params : List Param} {body : List Stmt} :
      fn.lexeme = .keyword .fn → ident.lexeme = .name name → IsParams ts params →
      colon.lexeme = .symbol .colon → IsBlock header us body →
      IsStmt header (fn :: ident :: (ts ++ colon :: us)) (.function fn.pos name params body)
  | exit {header : Bool} {break_ semicolon : Token} :
      break_.lexeme = .keyword .break_ → semicolon.lexeme = .symbol .semicolon →
      IsStmt header [break_, semicolon] (.exit break_.pos)
  | shortReturn {header : Bool} {return_ semicolon : Token} :
      return_.lexeme = .keyword .return_ → semicolon.lexeme = .symbol .semicolon →
      IsStmt header [return_, semicolon] (.ret return_.pos none)
  | ret {header : Bool} {ts : List Token} {return_ semicolon : Token} {value : Expr} :
      return_.lexeme = .keyword .return_ → IsExpr header ts value →
      semicolon.lexeme = .symbol .semicolon →
      IsStmt header (return_ :: (ts ++ [semicolon])) (.ret return_.pos (some value))
  | call {header : Bool} {t semicolon : Token} {ts : List Token} {callee : String}
      {args : List Expr} :
      IsCall header (t :: ts) callee args → semicolon.lexeme = .symbol .semicolon →
      IsStmt header (t :: (ts ++ [semicolon])) (.call t.pos callee args)

/-- `Branch = 'if' Expr ':' Stmt* ('stop' | 'stop'? 'else' (Branch | Block))`, where an
`else` with an `if` behind it is always followed by a branch. -/
inductive IsBranch : Bool → List Token → Expr → List Stmt → Else → Prop
  | absent {header : Bool} {ts us : List Token} {if_ colon stop : Token} {test : Expr}
      {body : List Stmt} :
      if_.lexeme = .keyword .if_ → IsExpr true ts test → colon.lexeme = .symbol .colon →
      IsStmts header us body → stop.lexeme = .keyword .stop →
      IsBranch header (if_ :: (ts ++ colon :: (us ++ [stop]))) test body .absent
  | closed {header : Bool} {ts us gap vs : List Token} {if_ colon else_ : Token} {test : Expr}
      {body closing : List Stmt} :
      if_.lexeme = .keyword .if_ → IsExpr true ts test → colon.lexeme = .symbol .colon →
      IsStmts header us body → IsOptionalStop gap → else_.lexeme = .keyword .else_ →
      IsBlock header vs closing → (∀ t ∈ vs.head?, t.lexeme ≠ .keyword .if_) →
      IsBranch header (if_ :: (ts ++ colon :: (us ++ (gap ++ else_ :: vs)))) test body
        (.body closing)
  | chained {header : Bool} {ts us gap vs : List Token} {if_ colon else_ t : Token}
      {test test' : Expr} {body body' : List Stmt} {rest : Else} :
      if_.lexeme = .keyword .if_ → IsExpr true ts test → colon.lexeme = .symbol .colon →
      IsStmts header us body → IsOptionalStop gap → else_.lexeme = .keyword .else_ →
      IsBranch header (t :: vs) test' body' rest →
      IsBranch header (if_ :: (ts ++ colon :: (us ++ (gap ++ else_ :: t :: vs)))) test body
        (.branch t.pos test' body' rest)

/-- `Block = Stmt* 'stop'` -/
inductive IsBlock : Bool → List Token → List Stmt → Prop
  | intro {header : Bool} {ts : List Token} {stop : Token} {body : List Stmt} :
      IsStmts header ts body → stop.lexeme = .keyword .stop → IsBlock header (ts ++ [stop]) body

/-- `Stmt*` -/
inductive IsStmts : Bool → List Token → List Stmt → Prop
  | nil {header : Bool} : IsStmts header [] []
  | cons {header : Bool} {ts us : List Token} {s : Stmt} {others : List Stmt} :
      IsStmt header ts s → IsStmts header us others → IsStmts header (ts ++ us) (s :: others)

end

/-! ## First tokens -/

theorem IsPrimary.exists_cons {header : Bool} {ts : List Token} {e : Expr}
    (h : IsPrimary header ts e) : ∃ t rest, ts = t :: rest := by
  cases h <;> exact ⟨_, _, rfl⟩

theorem IsPostfix.exists_cons {header : Bool} {ts : List Token} {e : Expr}
    (h : IsPostfix header ts e) : ∃ t rest, ts = t :: rest := by
  cases h with
  | plain hprimary => exact hprimary.exists_cons
  | index _ _ _ _ => exact List.exists_cons_of_ne_nil (by simp)

theorem IsCall.exists_cons {header : Bool} {ts : List Token} {callee : String}
    {args : List Expr} (h : IsCall header ts callee args) : ∃ t rest, ts = t :: rest := by
  cases h <;> exact ⟨_, _, rfl⟩

theorem IsBranch.exists_cons {header : Bool} {ts : List Token} {test : Expr} {body : List Stmt}
    {rest : Else} (h : IsBranch header ts test body rest) : ∃ t more, ts = t :: more := by
  cases h <;> exact ⟨_, _, rfl⟩

end Grammar

end Squishc.Surface
