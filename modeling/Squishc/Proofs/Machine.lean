import Squishc.Node

/-!
# Running typed trees step by step

A reference semantics of typed trees without functions that tells apart the ways
in which a program can fail.  A variable may be read before it holds anything, an
index may be out of range, and something may be done with a value of the wrong
kind.

The machine works for numbers of any sort: whoever runs it says how numbers are
added and compared and how one counts up to them.  It keeps what is left to do as
a list of tasks, so that one step does one thing and a loop is a task that puts
itself back.  Leaving a loop drops the tasks up to that loop.

Main definitions:

- `Machine.compute`: the value of an expression, or the trouble it makes.
- `Machine.step`: one step of a program.
- `Machine.run`: a number of steps.
-/

namespace Squishc.Machine

/-! ## Values -/

/-- A value of a running program. -/
inductive Datum (N : Type) where
  | number (n : N)
  | bool (b : Bool)
  | string (s : String)
  | array (items : List (Datum N))

/-- A kind of values. -/
inductive Kind where
  | number
  | bool
  | string
  | array
deriving DecidableEq, Repr, Inhabited

variable {N : Type}

/-- The kind of a value. -/
def Datum.kind : Datum N → Kind
  | number _ => .number
  | bool _ => .bool
  | string _ => .string
  | array _ => .array

/-- How a machine treats numbers, and how it compares values of one kind. -/
structure Arithmetic (N : Type) where
  literal : Num → N
  negate : N → N
  apply : Op → N → N → N
  holds : Op → Datum N → Datum N → Bool
  /-- The place that a number stands for when it is an index. -/
  place? : N → Option Nat
  /-- The number in a round of the count up to a bound, unless the count is over by
  then. -/
  count? : N → Nat → Option N

/-- Why a program cannot go on. -/
inductive Trouble where
  /-- A variable is read that holds nothing. -/
  | unset (v : Variable)
  /-- There is no part at an index. -/
  | outOfRange
  /-- Something is done with a value of the wrong kind, or there is nothing that
  could be done. -/
  | wrongKind
deriving DecidableEq, Repr, Inhabited

/-- A result, unless there is trouble. -/
abbrev Outcome := Except Trouble

namespace Datum

/-- A value as a truth value. -/
def truth : Datum N → Outcome Bool
  | bool b => .ok b
  | _ => .error .wrongKind

/-- The value of an operation with one operand. -/
def unary (M : Arithmetic N) : Op → Datum N → Outcome (Datum N)
  | .sub, number n => .ok (number (M.negate n))
  | .not, bool b => .ok (bool !b)
  | _, _ => .error .wrongKind

/-- The value of a comparison, which takes two values of one kind. -/
def compare (M : Arithmetic N) (op : Op) (x y : Datum N) : Outcome (Datum N) :=
  if x.kind = y.kind then .ok (bool (M.holds op x y)) else .error .wrongKind

/-- The value of an operation on numbers.  Strings can be joined, too. -/
def combine (M : Arithmetic N) : Op → Datum N → Datum N → Outcome (Datum N)
  | .add, string s, string t => .ok (string (s ++ t))
  | op, number m, number n => .ok (number (M.apply op m n))
  | _, _, _ => .error .wrongKind

/-- The value of an operation with two operands. -/
def binary (M : Arithmetic N) : Op → Datum N → Datum N → Outcome (Datum N)
  | .conj, x, y => return bool ((← x.truth) && (← y.truth))
  | .disj, x, y => return bool ((← x.truth) || (← y.truth))
  | op, x, y => if op.isComparison then compare M op x y else combine M op x y

/-- The truth value of an operation that its left operand alone decides. -/
def decides? : Op → Datum N → Option Bool
  | .conj, bool false => some false
  | .disj, bool true => some true
  | _, _ => none

/-- The part of a list at a place. -/
def part {α : Type} (items : List α) (place? : Option Nat) : Outcome α :=
  match place?.bind (items[·]?) with
  | some item => .ok item
  | none => .error .outOfRange

/-- The part of an array or a string at an index. -/
def index (M : Arithmetic N) : Datum N → Datum N → Outcome (Datum N)
  | array items, number n => part items (M.place? n)
  | string s, number n => return string (← part s.toList (M.place? n)).toString
  | _, _ => .error .wrongKind

/-- Whether one can loop over a value. -/
def isCollection (x : Datum N) : Bool := x.kind ≠ .bool

/-- What a loop over a value gives in a round, unless it is over by then. -/
def round? (M : Arithmetic N) : Datum N → Nat → Option (Datum N)
  | number n, k => (M.count? n k).map number
  | string s, k => s.toList[k]?.map fun c => string c.toString
  | array items, k => items[k]?
  | bool _, _ => none

end Datum

/-! ## Expressions -/

/-- What the variables hold.  A variable that was never set holds nothing. -/
abbrev Store (N : Type) := Variable → Option (Datum N)

/-- The store after a variable was set. -/
def Store.set (σ : Store N) (v : Variable) (x : Datum N) : Store N :=
  fun w => if w = v then some x else σ w

/-- What a variable holds. -/
def Store.read (σ : Store N) (v : Variable) : Outcome (Datum N) :=
  match σ v with
  | some x => .ok x
  | none => .error (.unset v)

mutual

/-- The value of an expression in a store.  Only what is needed is evaluated. -/
def compute (M : Arithmetic N) (σ : Store N) : Node → Outcome (Datum N)
  | .bool b => .ok (.bool b)
  | .number a => .ok (.number (M.literal a))
  | .string s _ => .ok (.string s)
  | .var v => σ.read v
  | .array elements _ => return .array (← computeAll M σ elements)
  | .index a i _ => do
    let x ← compute M σ a
    let y ← compute M σ i
    x.index M y
  | .unary op operand _ => do
    let x ← compute M σ operand
    x.unary M op
  | .binary op left right _ => do
    let x ← compute M σ left
    match x.decides? op with
    | some b => return .bool b
    | none =>
      let y ← compute M σ right
      x.binary M op y
  | .conditional consequent test alternate _ => do
    let x ← compute M σ test
    if ← x.truth then compute M σ consequent else compute M σ alternate
  | _ => .error .wrongKind

/-- The values of some expressions. -/
def computeAll (M : Arithmetic N) (σ : Store N) : List Node → Outcome (List (Datum N))
  | [] => .ok []
  | e :: rest => do
    let x ← compute M σ e
    let xs ← computeAll M σ rest
    return x :: xs

end

/-- The truth value of a test. -/
def computeTest (M : Arithmetic N) (σ : Store N) (test : Node) : Outcome Bool := do
  let x ← compute M σ test
  x.truth

/-! ## Statements -/

/-- Something that is left to do. -/
inductive Task (N : Type) where
  /-- A statement. -/
  | stmt (n : Node)
  /-- A loop on a test.  The closing statements end each round. -/
  | again (test : Node) (body closing : List Node)
  /-- A loop over a collection, before the given round. -/
  | rounds (iterator : Variable) (collection : Datum N) (round : Nat) (body : List Node)

/-- Whether a task is a loop that has begun. -/
def Task.isLoop : Task N → Bool
  | stmt _ => false
  | again _ _ _ => true
  | rounds _ _ _ _ => true

/-- What the variables hold, what was printed, and what is left to do. -/
structure State (N : Type) where
  store : Store N
  printed : List (Datum N)
  tasks : List (Task N)

namespace State

/-- The state in which nothing has been done of a program. -/
def start (program : Node) : State N := ⟨fun _ => none, [], [.stmt program]⟩

/-- A task is to be done next. -/
def push (s : State N) (task : Task N) : State N := ⟨s.store, s.printed, task :: s.tasks⟩

/-- Some statements are to be done next. -/
def enter (s : State N) (body : List Node) : State N :=
  ⟨s.store, s.printed, body.map .stmt ++ s.tasks⟩

/-- The innermost loop is left. -/
def leave (s : State N) : State N :=
  ⟨s.store, s.printed, (s.tasks.dropWhile fun task => !task.isLoop).tail⟩

/-- A value is printed. -/
def print (s : State N) (x : Datum N) : State N := ⟨s.store, s.printed ++ [x], s.tasks⟩

/-- A variable is set. -/
def set (s : State N) (v : Variable) (x : Datum N) : State N :=
  ⟨s.store.set v x, s.printed, s.tasks⟩

end State

/-- One step into a statement, in a state with what is left to do behind it. -/
def stepStmt (M : Arithmetic N) (s : State N) : Node → Outcome (State N)
  | .print argument => return s.print (← compute M s.store argument)
  | .declare v initializer => return s.set v (← compute M s.store initializer)
  | .assign target source => return s.set target (← compute M s.store source)
  | .shortIf test consequence => do
    if ← computeTest M s.store test then return s.enter consequence else return s
  | .ifElse test consequence alternate => do
    if ← computeTest M s.store test then return s.enter consequence
    else return s.enter alternate.spread
  | .whileLoop test body => .ok (s.push (.again test body []))
  | .forLoop declaration test increment body unrolled =>
    if unrolled then .ok (s.enter (declaration :: body))
    else .ok ((s.push (.again test body [increment])).enter [declaration])
  | .forEach iterator collection body => do
    let x ← compute M s.store collection
    if x.isCollection then return s.push (.rounds iterator x 0 body) else .error .wrongKind
  | .exit => .ok s.leave
  | .program statements => .ok (s.enter statements)
  | _ => .error .wrongKind

/-- One step into a task, in a state with what is left to do behind it. -/
def stepTask (M : Arithmetic N) (s : State N) : Task N → Outcome (State N)
  | .stmt n => stepStmt M s n
  | .again test body closing => do
    if ← computeTest M s.store test then
      return (s.push (.again test body closing)).enter (body ++ closing)
    else return s
  | .rounds iterator collection round body =>
    match collection.round? M round with
    | some x =>
      .ok (((s.set iterator x).push (.rounds iterator collection (round + 1) body)).enter body)
    | none => .ok s

/-- One step of a program.  When nothing is left to do, nothing happens. -/
def step (M : Arithmetic N) (s : State N) : Outcome (State N) :=
  match s.tasks with
  | [] => .ok s
  | task :: rest => stepTask M ⟨s.store, s.printed, rest⟩ task

/-- A number of steps. -/
def run (M : Arithmetic N) : Nat → State N → Outcome (State N)
  | 0, s => .ok s
  | n + 1, s => do
    let s ← step M s
    run M n s

end Squishc.Machine
