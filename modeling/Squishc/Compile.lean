import Squishc.Js.Lower
import Squishc.Node.Listing
import Squishc.Node.Optimize
import Squishc.Resolve
import Squishc.Surface.ReadStmt

/-!
# Compiling

From a source text to the text of a chosen stage: the listing of the resolved
program, the listing of the optimized one, or JavaScript.
-/

namespace Squishc

/-- Where compiling stops. -/
inductive Stage where
  | analyzed
  | optimized
  | js
deriving DecidableEq, Repr, Inhabited

namespace Stage

/-- The word for a stage. -/
def text : Stage → String
  | analyzed => "analyzed"
  | optimized => "optimized"
  | js => "js"

/-- All stages. -/
def all : List Stage := [analyzed, optimized, js]

/-- The stage with the given word. -/
def ofText? (s : String) : Option Stage :=
  all.find? (fun stage => stage.text == s)

end Stage

/-- What was to be done with a node that stands where it has no meaning. -/
inductive Pass where
  | resolveStatement
  | resolveExpression
  | optimize
  | generate
  /-- Going through the statements of a block. -/
  | block
deriving DecidableEq, Repr, Inhabited

/-- Why there is no result. -/
inductive Failure where
  /-- The program breaks a rule. -/
  | refused (d : Diagnostic)
  /-- A number has too many digits to be read or written. -/
  | digitLimit
  /-- A node stands where the pass has no meaning for it. -/
  | stray (pass : Pass) (kind : String)
  /-- A node lacks a part that is asked for. -/
  | lacks (kind part : String)
  /-- Reading ran past the tokens, which does not happen when they end with an
  end mark. -/
  | exhausted
deriving DecidableEq, Repr, Inhabited

/-- The message about a stray node. -/
def Pass.strayMessage (pass : Pass) (kind : String) : String :=
  match pass with
  | resolveStatement => "unknown statement: " ++ kind
  | resolveExpression => "unknown expression: " ++ kind
  | optimize => "cannot optimize " ++ kind
  | generate => "cannot generate " ++ kind
  | block => "'" ++ kind ++ "' object is not iterable"

/-- The message about a part that a node lacks. -/
def lackMessage (kind part : String) : String :=
  "'" ++ kind ++ "' object has no attribute '" ++ part ++ "'"

namespace Failure

/-- The failure of a reader. -/
def ofRead (f : Surface.ReadFault) : Failure :=
  match f.diagnostic?, f with
  | some d, _ => refused d
  | none, .digitLimit => digitLimit
  | none, _ => exhausted

/-- The failure of parsing. -/
def ofParse : Surface.ParseFault → Failure
  | .scan f => refused f.toDiagnostic
  | .read f => ofRead f

/-- The failure of resolution. -/
def ofResolve : ResolveFault → Failure
  | .rule broken pos => refused ⟨broken.category, broken.message, pos⟩
  | .strayStatement kind => stray .resolveStatement kind
  | .strayExpression kind => stray .resolveExpression kind
  | .strayBlock kind => stray .block kind

/-- The failure of optimizing. -/
def ofObstacle : Node.Obstacle → Failure
  | .stray kind => stray .optimize kind
  | .lacks kind part => lacks kind part

/-- The failure of emission. -/
def ofEmit : Js.EmitFault → Failure
  | .stray kind => stray .generate kind
  | .noBlock kind => stray .block kind
  | .digitLimit => digitLimit

end Failure

/-- The typed tree of a surface tree. -/
def analyzeTree (p : Surface.Program) : Except Failure Node :=
  (resolve p).mapError .ofResolve

/-- The typed tree of a source text. -/
def analyze (source : String) : Except Failure Node := do
  let p ← (Surface.parse source).mapError .ofParse
  analyzeTree p

/-- The optimized form of a tree, if the pass knows all it meets. -/
def optimize (n : Node) : Except Failure Node :=
  match n.obstacle? with
  | some o => .error (.ofObstacle o)
  | none => .ok n.optimize

/-- The type of a node, if it is one that has a type. -/
def typeOf (n : Node) : Except Failure Ty :=
  match n.type? with
  | some t => .ok t
  | none => .error (.lacks n.kind "type")

/-- The listing of a tree. -/
def listing (n : Node) : Except Failure String :=
  match n.listing? with
  | some text => .ok text
  | none => .error .digitLimit

/-- The statements of a program: those of a program node, those of a list, or a
single statement. -/
def Node.toStatements : Node → List Node
  | program statements => statements
  | n => n.spread

/-- The JavaScript of a tree. -/
def generate (n : Node) : Except Failure String :=
  (Js.generate n.toStatements).mapError .ofEmit

/-- Compiles a source text up to a stage. -/
def compileTo (source : String) : Stage → Except Failure String
  | .analyzed => do
    let n ← analyze source
    listing n
  | .optimized => do
    let n ← analyze source
    let n ← optimize n
    listing n
  | .js => do
    let n ← analyze source
    let n ← optimize n
    generate n

/-- Compiles a source text up to the stage with the given word. -/
def compile (source stage : String) : Except Failure String :=
  match Stage.ofText? stage with
  | some s => compileTo source s
  | none => .error (.refused ⟨.unknownStage, "Unknown output type: " ++ stage, .unknown⟩)

end Squishc
