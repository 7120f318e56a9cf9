import Squishc.Node
import Squishc.Scope
import Squishc.Surface

/-!
# Resolution

Turns a surface tree into a typed tree: every name is resolved to its entity and
every expression gets its type.  Rules on scopes, calls and control hold
everywhere.  Rules on types hold outside functions only, since parameters have
the type `any` and little could be checked; the one exception is the collection
of a loop, which must be something to loop over.
-/

namespace Squishc

/-- The rule that a program breaks. -/
inductive RuleBreak where
  | scope (fault : ScopeFault)
  | notAFunction (name : String)
  | arity (expected found : Nat)
  | assignToFunction (name : String)
  | functionAsValue (name : String)
  | assignType (source target : Ty)
  | elementType (first found : Ty)
  | indexType (found : Ty)
  | notIndexable (found : Ty)
  | operandTypes (left right : Ty)
  | expectedBoolean (found : Ty)
  | expectedNumber (found : Ty)
  | expectedNumberOrString (found : Ty)
  | notInLoop
  | notInFunction
  | notIterable (found : Ty)
deriving DecidableEq, Repr, Inhabited

namespace RuleBreak

/-- The category of a broken rule. -/
def category : RuleBreak → Category
  | scope fault => fault.category
  | notAFunction _ => .notAFunction
  | arity _ _ => .arityMismatch
  | assignToFunction _ => .typeMismatch
  | functionAsValue _ => .typeMismatch
  | assignType _ _ => .typeMismatch
  | elementType _ _ => .typeMismatch
  | indexType _ => .typeMismatch
  | notIndexable _ => .typeMismatch
  | operandTypes _ _ => .typeMismatch
  | expectedBoolean _ => .expectedBoolean
  | expectedNumber _ => .expectedNumber
  | expectedNumberOrString _ => .expectedNumberOrString
  | notInLoop => .notInLoop
  | notInFunction => .notInFunction
  | notIterable _ => .notIterable

/-- The message of a broken rule. -/
def message : RuleBreak → String
  | scope fault => fault.message
  | notAFunction name => name ++ " is not a function"
  | arity expected found =>
    "Expected " ++ toString expected ++ " argument(s), found " ++ toString found
  | assignToFunction name => "Cannot assign to function " ++ name
  | functionAsValue name => "Function " ++ name ++ " cannot be used as a value"
  | assignType source target => "Cannot assign a " ++ source.name ++ " to a " ++ target.name
  | elementType first found =>
    "Array elements must all be " ++ first.name ++ ", found " ++ found.name
  | indexType found => "Index must be an int, found " ++ found.name
  | notIndexable found => "Cannot index a " ++ found.name
  | operandTypes left right =>
    "Operands do not have the same type: " ++ left.name ++ " vs " ++ right.name
  | expectedBoolean found => "Expected a boolean, found " ++ found.name
  | expectedNumber found => "Expected a number, found " ++ found.name
  | expectedNumberOrString found => "Expected a number or string, found " ++ found.name
  | notInLoop => "Break can only appear in a loop"
  | notInFunction => "Return can only appear in a function"
  | notIterable found => "Cannot loop over a " ++ found.name

end RuleBreak

/-- Why a surface tree cannot be resolved.  All but the first only arise from trees
that were put together by hand. -/
inductive ResolveFault where
  | rule (broken : RuleBreak) (pos : Pos)
  | strayStatement (kind : String)
  | strayExpression (kind : String)
  | strayBlock (kind : String)
deriving DecidableEq, Repr, Inhabited

/-- The outcome of resolving. -/
abbrev Resolved := Except ResolveFault

namespace Resolve

/-- Fails with a broken rule unless a condition holds. -/
def require (condition : Bool) (broken : RuleBreak) (pos : Pos) : Resolved Unit :=
  if condition then .ok () else .error (.rule broken pos)

/-! ## Operations on resolved operands

Each of these takes whether types are checked, the resolved operands and the
places to report. -/

/-- Requires a boolean. -/
def checkBoolean (strict : Bool) (n : Node) (pos : Pos) : Resolved Unit :=
  require (!strict || n.type.compatible .boolean) (.expectedBoolean n.type) pos

/-- Requires a number. -/
def checkNumber (n : Node) (pos : Pos) : Resolved Unit :=
  require n.type.isNumber (.expectedNumber n.type) pos

/-- Requires two operands that go together. -/
def checkOperands (left right : Node) (pos : Pos) : Resolved Unit :=
  require (left.type.compatible right.type) (.operandTypes left.type right.type) pos

/-- An operation with one operand.  Every operator but negation of a truth value
counts as a sign. -/
def unary (strict : Bool) (op : Op) (operand : Node) (pos : Pos) : Resolved Node :=
  if op = .not then do
    checkBoolean strict operand pos
    return .unary .not operand .boolean
  else do
    require (!strict || operand.type.isNumber) (.expectedNumber operand.type) pos
    return .unary .sub operand operand.type

/-- Requires the operands of an arithmetic operation to be of the right types. -/
def checkArithmetic (op : Op) (left right : Node) (leftPos rightPos : Pos) : Resolved Unit :=
  if op = .add then do
    require (left.type.isNumber || left.type.compatible .string)
      (.expectedNumberOrString left.type) leftPos
    checkOperands left right rightPos
  else do
    checkNumber left leftPos
    checkNumber right rightPos
    checkOperands left right rightPos

/-- The type of an arithmetic operation: that of its left operand, or of its
right one if nothing is known about the left. -/
def arithmeticType (left right : Node) : Ty :=
  if left.type.isAny then right.type else left.type

/-- An operation with two operands. -/
def binary (strict : Bool) (op : Op) (left right : Node) (leftPos rightPos : Pos) :
    Resolved Node :=
  if op = .conj || op = .disj then do
    checkBoolean strict left leftPos
    checkBoolean strict right rightPos
    return .binary op left right .boolean
  else if op.isComparison then do
    if strict then checkOperands left right rightPos
    return .binary op left right .boolean
  else do
    if strict then checkArithmetic op left right leftPos rightPos
    return .binary op left right (arithmeticType left right)

/-- Requires the elements behind the first to go with it. -/
def checkElements (first : Ty) : List (Node × Pos) → Resolved Unit
  | [] => .ok ()
  | (n, pos) :: rest => do
    require (first.compatible n.type) (.elementType first n.type) pos
    checkElements first rest

/-- An array of the given elements. -/
def array (strict : Bool) (elements : List Node) (positions : List Pos) : Resolved Node :=
  match elements with
  | [] => .ok (.array [] (.array .any))
  | first :: rest => do
    if strict then checkElements first.type (rest.zip positions.tail)
    return .array elements (.array first.type)

/-- Indexing of an array or a string. -/
def index (strict : Bool) (a i : Node) (arrayPos indexPos : Pos) : Resolved Node :=
  if strict then do
    require (i.type.compatible .int) (.indexType i.type) indexPos
    match a.type with
    | .array element => return .index a i element
    | .string => return .index a i .string
    | .any => return .index a i .any
    | t => .error (.rule (.notIndexable t) arrayPos)
  else
    match a.type with
    | .array element => return .index a i element
    | _ => return .index a i .any

/-- What the items of a collection are. -/
def itemType? : Ty → Option Ty
  | .array element => some element
  | .int => some .int
  | .string => some .string
  | .any => some .any
  | _ => none

/-! ## Names -/

/-- Whether the rules on types hold in the innermost scope. -/
def isStrict (chain : Chain) : Bool :=
  match chain.head? with
  | some s => s.strict
  | none => true

/-- The entity of a name. -/
def entity (chain : Chain) (name : String) (pos : Pos) : Resolved Entity :=
  match chain.resolve? name with
  | some e => .ok e
  | none => .error (.rule (.scope (.notDeclared name)) pos)

/-- The variable of a name that is used as a value. -/
def variableUse (chain : Chain) (name : String) (pos : Pos) : Resolved Variable := do
  match ← entity chain name pos with
  | .var v => return v
  | .function _ => .error (.rule (.functionAsValue name) pos)

/-- The variable of a name that is assigned to. -/
def assignTarget (chain : Chain) (name : String) (pos : Pos) : Resolved Variable := do
  match ← entity chain name pos with
  | .var v => return v
  | .function _ => .error (.rule (.assignToFunction name) pos)

/-- The function of a name that is called. -/
def calledFunction (chain : Chain) (name : String) (pos : Pos) : Resolved Function := do
  match ← entity chain name pos with
  | .var _ => .error (.rule (.notAFunction name) pos)
  | .function f => return f

/-- A call with resolved arguments. -/
def call (f : Function) (args : List Node) (pos : Pos) : Resolved Node := do
  require (args.length == f.params.length) (.arity f.params.length args.length) pos
  return .call f args .any

/-! ## Expressions -/

mutual

/-- Resolves an expression in a chain of scopes. -/
def expr (chain : Chain) : Surface.Expr → Resolved Node
  | .int _ value => .ok (.number (.int value))
  | .float _ value => .ok (.number (.float value))
  | .bool _ value => .ok (.bool value)
  | .string _ value => .ok (.string value .string)
  | .var pos name => do
    let v ← variableUse chain name pos
    return .var v
  | .array _ elements => do
    let nodes ← exprs chain elements
    array (isStrict chain) nodes (elements.map Surface.Expr.pos)
  | .index _ a i => do
    let arrayNode ← expr chain a
    let indexNode ← expr chain i
    index (isStrict chain) arrayNode indexNode a.pos i.pos
  | .call pos callee args => do
    let f ← calledFunction chain callee pos
    let nodes ← exprs chain args
    call f nodes pos
  | .unary pos op operand => do
    let n ← expr chain operand
    unary (isStrict chain) op n pos
  | .binary _ op left right => do
    let l ← expr chain left
    let r ← expr chain right
    binary (isStrict chain) op l r left.pos right.pos
  | .conditional _ consequent test alternate => do
    let c ← expr chain consequent
    let t ← expr chain test
    checkBoolean (isStrict chain) t test.pos
    let a ← expr chain alternate
    return .conditional c t a c.type
  | .stray kind => .error (.strayExpression kind)

/-- Resolves expressions from left to right. -/
def exprs (chain : Chain) : List Surface.Expr → Resolved (List Node)
  | [] => .ok []
  | e :: rest => do
    let n ← expr chain e
    let others ← exprs chain rest
    return n :: others

end

/-! ## Statements -/

/-- The scopes around a statement, the innermost first, and the number of the
next entity. -/
structure Env where
  chain : Chain
  fresh : Nat
deriving DecidableEq, Repr, Inhabited

namespace Env

/-- The surroundings of a whole program. -/
def initial : Env := ⟨[.root], 0⟩

/-- The surroundings after a declaration in the innermost scope. -/
def declare (env : Env) (name : String) (e : Entity) (pos : Pos) : Resolved Env :=
  match env.chain with
  | [] => .ok env
  | top :: outer =>
    match top.declare? name e with
    | none => .error (.rule (.scope (.alreadyDeclared name)) pos)
    | some top => .ok ⟨top :: outer, env.fresh⟩

/-- A new variable, declared in the innermost scope. -/
def declareVariable (env : Env) (name : String) (type : Ty) (pos : Pos) :
    Resolved (Variable × Env) := do
  let v : Variable := ⟨env.fresh, name, type⟩
  let env ← (Env.mk env.chain (env.fresh + 1)).declare name (.var v) pos
  return (v, env)

/-- The surroundings inside a new scope. -/
def inside (env : Env) (inLoop : Bool) (function? : Option Function) : Env :=
  ⟨(env.chain.headD .root).child inLoop (function?.map .function) :: env.chain, env.fresh⟩

/-- The surroundings behind a scope that was opened in these. -/
def leave (env inner : Env) : Env := ⟨env.chain, inner.fresh⟩

/-- Whether a loop surrounds the statement, within its function. -/
def inLoop (env : Env) : Bool :=
  match env.chain.head? with
  | some s => s.inLoop
  | none => false

/-- Whether the statement belongs to a function. -/
def inFunction (env : Env) : Bool :=
  match env.chain.head? with
  | some s => s.owner?.isSome
  | none => false

end Env

/-- Resolves a declaration.  The initializer comes first, so that it sees an outer
variable of the same name. -/
def declaration (env : Env) (b : Surface.Binding) : Resolved (Node × Env) := do
  let initializer ← expr env.chain b.value
  let (v, env) ← env.declareVariable b.name initializer.type b.pos
  return (.declare v initializer, env)

/-- Resolves an assignment. -/
def assignment (env : Env) (b : Surface.Binding) : Resolved Node := do
  let target ← assignTarget env.chain b.name b.pos
  let source ← expr env.chain b.value
  require (!isStrict env.chain || target.type.compatible source.type)
    (.assignType source.type target.type) b.pos
  return .assign target source

/-- Resolves the test of a statement. -/
def test (env : Env) (e : Surface.Expr) : Resolved Node := do
  let n ← expr env.chain e
  checkBoolean (isStrict env.chain) n e.pos
  return n

/-- The parameters of a function, numbered from the given number on. -/
def paramVariables (first : Nat) : List Surface.Param → List Variable
  | [] => []
  | p :: rest => ⟨first, p.name, .any⟩ :: paramVariables (first + 1) rest

/-- Declares the parameters of a function in its scope. -/
def declareParams (env : Env) : List (Surface.Param × Variable) → Resolved Env
  | [] => .ok env
  | (p, v) :: rest => do
    let env ← env.declare p.name (.var v) p.pos
    declareParams env rest

mutual

/-- Resolves a statement and gives the surroundings of the next one. -/
def stmt (env : Env) : Surface.Stmt → Resolved (Node × Env)
  | .print _ value => do
    let n ← expr env.chain value
    return (.print n, env)
  | .declare b => declaration env b
  | .assign b => do
    let n ← assignment env b
    return (n, env)
  | .branch _ e body rest => do
    let t ← test env e
    let (consequence, env) ← stmts env body
    let (alternate?, env) ← alternative env rest
    match alternate? with
    | none => return (.shortIf t consequence, env)
    | some alternate => return (.ifElse t consequence alternate, env)
  | .whileLoop _ e body => do
    let t ← test env e
    let (nodes, inner) ← stmts (env.inside true none) body
    return (.whileLoop t nodes, env.leave inner)
  | .forLoop _ init e update body => do
    let (d, inner) ← declaration (env.inside true none) init
    let t ← test inner e
    let increment ← assignment inner update
    let (nodes, inner) ← stmts inner body
    return (.forLoop d t increment nodes false, env.leave inner)
  | .forEach pos e name body => do
    let collection ← expr env.chain e
    match itemType? collection.type with
    | none => .error (.rule (.notIterable collection.type) e.pos)
    | some item => do
      let (v, inner) ← (env.inside true none).declareVariable name item pos
      let (nodes, inner) ← stmts inner body
      return (.forEach v collection nodes, env.leave inner)
  | .function pos name params body => do
    let entities := paramVariables (env.fresh + 1) params
    let f : Function := ⟨env.fresh, name, entities⟩
    let env ← (Env.mk env.chain (env.fresh + 1 + params.length)).declare name (.function f) pos
    let inner ← declareParams (env.inside false (some f)) (params.zip entities)
    let (nodes, inner) ← stmts inner body
    return (.define f nodes, env.leave inner)
  | .exit pos => do
    require env.inLoop .notInLoop pos
    return (.exit, env)
  | .ret pos value => do
    require env.inFunction .notInFunction pos
    match value with
    | none => return (.shortRet, env)
    | some e => do
      let n ← expr env.chain e
      return (.ret n, env)
  | .call pos callee args => do
    let f ← calledFunction env.chain callee pos
    let nodes ← exprs env.chain args
    let n ← call f nodes pos
    return (n, env)
  | .stray kind => .error (.strayStatement kind)

/-- Resolves statements in their order. -/
def stmts (env : Env) : List Surface.Stmt → Resolved (List Node × Env)
  | [] => .ok ([], env)
  | s :: rest => do
    let (n, env) ← stmt env s
    let (others, env) ← stmts env rest
    return (n :: others, env)

/-- Resolves what follows the body of a branch. -/
def alternative (env : Env) : Surface.Else → Resolved (Option Node × Env)
  | .absent => .ok (none, env)
  | .body body => do
    let (nodes, env) ← stmts env body
    return (some (.list nodes), env)
  | .branch _ e body rest => do
    let t ← test env e
    let (consequence, env) ← stmts env body
    let (alternate?, env) ← alternative env rest
    match alternate? with
    | none => return (some (.shortIf t consequence), env)
    | some alternate => return (some (.ifElse t consequence alternate), env)
  | .stray kind => .error (.strayBlock kind)

end

end Resolve

/-- The typed tree of a program. -/
def resolve (p : Surface.Program) : Resolved Node := do
  let (nodes, _) ← Resolve.stmts .initial p.statements
  return .program nodes

end Squishc
