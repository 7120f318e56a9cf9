import Squishc.Node
import Squishc.Text.Quoted

/-!
# Listings

A listing shows a typed tree as one line for each node, in the order in which
the nodes are first met.  A line has the number of its node, the word for its
kind, and its fields.  A field refers to another node by its number; an entity
is listed where it is first met and referred to by the same number everywhere.
-/

namespace Squishc

namespace Listing

/-- The next free number and the numbers that entities have. -/
structure State where
  next : Nat
  entities : List (Entity × Nat)
deriving DecidableEq, Repr, Inhabited

/-- Nothing has been met yet. -/
def State.initial : State := ⟨1, []⟩

/-- The state after one more number is taken. -/
def State.step (s : State) : State := ⟨s.next + 1, s.entities⟩

/-- The number of an entity that was met before. -/
def State.find? (s : State) (e : Entity) : Option Nat :=
  (s.entities.find? (fun known => known.1 = e)).map Prod.snd

/-- The state after an entity is met for the first time. -/
def State.enter (s : State) (e : Entity) : State :=
  ⟨s.next + 1, s.entities ++ [(e, s.next)]⟩

/-- A node that has been listed: how a field refers to it, its lines and those of
the nodes below it, and the state behind them. -/
structure Listed where
  view : String
  lines : List String
  state : State
deriving DecidableEq, Repr, Inhabited

/-- Pads a text with blanks on its left. -/
def padLeft (width : Nat) (text : String) : String :=
  String.ofList (List.replicate (width - text.length) ' ') ++ text

/-- The reference to a number. -/
def reference (n : Nat) : String := "#" ++ toString n

/-- The line of a node. -/
def line (number : Nat) (kind : String) (fields : List (String × String)) : String :=
  let props := fields.map (fun f => " " ++ f.1 ++ "=" ++ f.2)
  padLeft 4 (toString number) ++ " | " ++ kind ++ String.join props

/-- The text of a list of views. -/
def bracketed (views : List String) : String :=
  "[" ++ ",".intercalate views ++ "]"

/-- The word for a truth value. -/
def truth (b : Bool) : String := if b then "true" else "false"

/-- Lists a variable. -/
def ofVariable (v : Variable) (s : State) : Listed :=
  match s.find? (.var v) with
  | some n => ⟨reference n, [], s⟩
  | none =>
    ⟨reference s.next,
      [line s.next "Variable" [("name", Text.quoted v.name), ("type", v.type.name)]],
      s.enter (.var v)⟩

/-- Lists variables one after another. -/
def ofVariables : List Variable → State → List String × List String × State
  | [], s => ([], [], s)
  | v :: rest, s =>
    let first := ofVariable v s
    let (views, lines, s) := ofVariables rest first.state
    (first.view :: views, first.lines ++ lines, s)

/-- Lists a function and its parameters. -/
def ofFunction (f : Function) (s : State) : Listed :=
  match s.find? (.function f) with
  | some n => ⟨reference n, [], s⟩
  | none =>
    let (views, lines, after) := ofVariables f.params (s.enter (.function f))
    ⟨reference s.next,
      line s.next "Function" [("name", Text.quoted f.name), ("params", bracketed views)] :: lines,
      after⟩

/-- The listing of a node with the given number and fields, whose parts have the
given lines. -/
def node (number : Nat) (n : Node) (fields : List (String × String)) (lines : List String)
    (after : State) : Listed :=
  ⟨reference number, line number n.kind fields :: lines, after⟩

mutual

/-- Lists a node and everything below it. -/
def ofNode : Node → State → Listed
  | .null, s => ⟨"None", [], s⟩
  | .foreign, s => ⟨"Opaque", [], s⟩
  | .bool b, s => ⟨truth b, [], s⟩
  | .number n, s => ⟨n.text, [], s⟩
  | .var v, s => ofVariable v s
  | .function f, s => ofFunction f s
  | .list items, s =>
    let (views, lines, after) := ofNodes items s
    ⟨bracketed views, lines, after⟩
  | .program statements, s =>
    let (views, lines, after) := ofNodes statements s.step
    node s.next (.program statements) [("statements", bracketed views)] lines after
  | .print argument, s =>
    let a := ofNode argument s.step
    node s.next (.print argument) [("argument", a.view)] a.lines a.state
  | .declare v initializer, s =>
    let a := ofVariable v s.step
    let b := ofNode initializer a.state
    node s.next (.declare v initializer) [("variable", a.view), ("initializer", b.view)]
      (a.lines ++ b.lines) b.state
  | .assign target source, s =>
    let a := ofVariable target s.step
    let b := ofNode source a.state
    node s.next (.assign target source) [("target", a.view), ("source", b.view)]
      (a.lines ++ b.lines) b.state
  | .shortIf test consequence, s =>
    let a := ofNode test s.step
    let (views, lines, after) := ofNodes consequence a.state
    node s.next (.shortIf test consequence)
      [("test", a.view), ("consequence", bracketed views)] (a.lines ++ lines) after
  | .ifElse test consequence alternate, s =>
    let a := ofNode test s.step
    let (views, lines, after) := ofNodes consequence a.state
    let b := ofNode alternate after
    node s.next (.ifElse test consequence alternate)
      [("test", a.view), ("consequence", bracketed views), ("alternate", b.view)]
      (a.lines ++ lines ++ b.lines) b.state
  | .whileLoop test body, s =>
    let a := ofNode test s.step
    let (views, lines, after) := ofNodes body a.state
    node s.next (.whileLoop test body) [("test", a.view), ("body", bracketed views)]
      (a.lines ++ lines) after
  | .forLoop declaration test increment body unrolled, s =>
    let a := ofNode declaration s.step
    let b := ofNode test a.state
    let c := ofNode increment b.state
    let (views, lines, after) := ofNodes body c.state
    node s.next (.forLoop declaration test increment body unrolled)
      [("declaration", a.view), ("test", b.view), ("increment", c.view),
        ("body", bracketed views), ("unrolled", truth unrolled)]
      (a.lines ++ b.lines ++ c.lines ++ lines) after
  | .forEach iterator collection body, s =>
    let a := ofVariable iterator s.step
    let b := ofNode collection a.state
    let (views, lines, after) := ofNodes body b.state
    node s.next (.forEach iterator collection body)
      [("iterator", a.view), ("collection", b.view), ("body", bracketed views)]
      (a.lines ++ b.lines ++ lines) after
  | .define f body, s =>
    let a := ofFunction f s.step
    let (views, lines, after) := ofNodes body a.state
    node s.next (.define f body) [("fun", a.view), ("body", bracketed views)]
      (a.lines ++ lines) after
  | .exit, s => node s.next .exit [] [] s.step
  | .ret expression, s =>
    let a := ofNode expression s.step
    node s.next (.ret expression) [("expression", a.view)] a.lines a.state
  | .shortRet, s => node s.next .shortRet [] [] s.step
  | .call callee args type, s =>
    let a := ofFunction callee s.step
    let (views, lines, after) := ofNodes args a.state
    node s.next (.call callee args type)
      [("callee", a.view), ("args", bracketed views), ("type", type.name)]
      (a.lines ++ lines) after
  | .unary op operand type, s =>
    let a := ofNode operand s.step
    node s.next (.unary op operand type)
      [("op", Text.quoted op.text), ("left", a.view), ("right", "None"), ("type", type.name)]
      a.lines a.state
  | .binary op left right type, s =>
    let a := ofNode left s.step
    let b := ofNode right a.state
    node s.next (.binary op left right type)
      [("op", Text.quoted op.text), ("left", a.view), ("right", b.view), ("type", type.name)]
      (a.lines ++ b.lines) b.state
  | .conditional consequent test alternate type, s =>
    let a := ofNode consequent s.step
    let b := ofNode test a.state
    let c := ofNode alternate b.state
    node s.next (.conditional consequent test alternate type)
      [("consequent", a.view), ("test", b.view), ("alternate", c.view), ("type", type.name)]
      (a.lines ++ b.lines ++ c.lines) c.state
  | .string chars type, s =>
    node s.next (.string chars type) [("chars", Text.quoted chars), ("type", type.name)] [] s.step
  | .array elements type, s =>
    let (views, lines, after) := ofNodes elements s.step
    node s.next (.array elements type) [("elements", bracketed views), ("type", type.name)]
      lines after
  | .index array index type, s =>
    let a := ofNode array s.step
    let b := ofNode index a.state
    node s.next (.index array index type)
      [("array", a.view), ("index", b.view), ("type", type.name)] (a.lines ++ b.lines) b.state

/-- Lists nodes one after another. -/
def ofNodes : List Node → State → List String × List String × State
  | [], s => ([], [], s)
  | n :: rest, s =>
    let first := ofNode n s
    let (views, lines, after) := ofNodes rest first.state
    (first.view :: views, first.lines ++ lines, after)

end

end Listing

namespace Node

mutual

/-- Whether every number in a tree may be turned into text. -/
def writable : Node → Bool
  | number n => n.writable
  | list items => allWritable items
  | program statements => allWritable statements
  | print argument => argument.writable
  | declare _ initializer => initializer.writable
  | assign _ source => source.writable
  | shortIf test consequence => test.writable && allWritable consequence
  | ifElse test consequence alternate =>
    test.writable && allWritable consequence && alternate.writable
  | whileLoop test body => test.writable && allWritable body
  | forLoop declaration test increment body _ =>
    declaration.writable && test.writable && increment.writable && allWritable body
  | forEach _ collection body => collection.writable && allWritable body
  | define _ body => allWritable body
  | ret expression => expression.writable
  | call _ args _ => allWritable args
  | unary _ operand _ => operand.writable
  | binary _ left right _ => left.writable && right.writable
  | conditional consequent test alternate _ =>
    consequent.writable && test.writable && alternate.writable
  | array elements _ => allWritable elements
  | index a i _ => a.writable && i.writable
  | null | foreign | bool _ | var _ | function _ | exit | shortRet | string _ _ => true

/-- Whether every number in some trees may be turned into text. -/
def allWritable : List Node → Bool
  | [] => true
  | n :: rest => n.writable && allWritable rest

end

/-- The lines of a listing. -/
def listingLines (n : Node) : List String := (Listing.ofNode n .initial).lines

/-- The listing of a tree, unless it holds a number that has too many digits. -/
def listing? (n : Node) : Option String :=
  if n.writable then some ("\n".intercalate n.listingLines) else none

end Node

end Squishc
