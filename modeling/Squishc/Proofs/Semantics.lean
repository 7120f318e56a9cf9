import Squishc.Node

/-!
# Running typed trees

A reference semantics of typed trees without functions, arrays and binary64
numbers.  A store gives values to variables, an expression has a value in a
store or is stuck, and a statement takes one store to another and prints a list
of values on its way.  What is stuck has no value and no run.

Only what is needed is evaluated: the right operand of a conjunction or a
disjunction may be left out, and so may one side of a conditional.

Main definitions:

- `Node.eval`: the value of an expression.
- `Run`: the runs of statements and of the loops inside them.
- `Node.Outputs`: a program ends and has printed the given values.
-/

namespace Squishc

/-! ## Values -/

/-- A value of a running program. -/
inductive Value where
  | int (n : Int)
  | bool (b : Bool)
  | string (s : String)
deriving DecidableEq, Repr, Inhabited

namespace Value

/-- The code units by which strings are ordered.  A character beyond the first
plane counts as two units. -/
def codeUnits (s : String) : List Nat :=
  s.toList.flatMap fun c =>
    if c.toNat < 0x10000 then [c.toNat]
    else [0xd7c0 + c.toNat / 0x400, 0xdc00 + c.toNat % 0x400]

/-- The order of two values of one kind. -/
def compare? : Value → Value → Option Ordering
  | int m, int n => some (compare m n)
  | bool a, bool b => some (compare a b)
  | string s, string t => some (compare (codeUnits s) (codeUnits t))
  | _, _ => none

/-- Whether a comparison holds of two values in the given order.  Other operators
compare nothing. -/
def holds? : Op → Ordering → Option Bool
  | .lt, o => some (o == .lt)
  | .le, o => some (o == .lt || o == .eq)
  | .eq, o => some (o == .eq)
  | .ne, o => some (o != .eq)
  | .ge, o => some (o == .gt || o == .eq)
  | .gt, o => some (o == .gt)
  | _, _ => none

/-- The value of an operation with one operand. -/
def unary : Op → Value → Option Value
  | .sub, int n => some (int (-n))
  | .not, bool b => some (bool !b)
  | _, _ => none

/-- The value of a comparison. -/
def comparison (op : Op) (x y : Value) : Option Value :=
  (x.compare? y).bind fun o => (holds? op o).map bool

/-- The value of an operation with two operands.  A remainder has the sign of the
dividend, and there are no negative powers. -/
def binary : Op → Value → Value → Option Value
  | .add, int m, int n => some (int (m + n))
  | .add, string s, string t => some (string (s ++ t))
  | .sub, int m, int n => some (int (m - n))
  | .mul, int m, int n => some (int (m * n))
  | .mod, int m, int n => if n = 0 then none else some (int (m.tmod n))
  | .pow, int m, int n => if 0 ≤ n then some (int (m.pow n.toNat)) else none
  | .conj, bool a, bool b => some (bool (a && b))
  | .disj, bool a, bool b => some (bool (a || b))
  | op, x, y => comparison op x y

/-- The value of an operation that its left operand alone decides. -/
def shortcut : Op → Value → Option Value
  | .conj, bool false => some (bool false)
  | .disj, bool true => some (bool true)
  | _, _ => none

/-- The character of a string at a place. -/
def charAt : Value → Value → Option Value
  | string s, int n => if 0 ≤ n then (s.toList[n.toNat]?).map (fun c => string c.toString) else none
  | _, _ => none

/-- What a loop over a value runs through: the numbers below an integer, or the
characters of a string. -/
def items? : Value → Option (List Value)
  | int n => some ((List.range n.toNat).map (fun i : Nat => int i))
  | string s => some (s.toList.map (fun c => string c.toString))
  | bool _ => none

end Value

/-! ## Stores -/

/-- What the variables hold.  A variable that was never set holds nothing. -/
abbrev Store := Variable → Option Value

namespace Store

/-- The store in which no variable is set. -/
def empty : Store := fun _ => none

/-- The store after a variable was set. -/
def set (σ : Store) (v : Variable) (x : Value) : Store :=
  fun w => if w = v then some x else σ w

@[simp] theorem set_self (σ : Store) (v : Variable) (x : Value) : σ.set v x v = some x := by
  simp [set]

theorem set_of_ne {v w : Variable} (σ : Store) (x : Value) (hne : w ≠ v) :
    σ.set v x w = σ w := by
  simp [set, hne]

end Store

/-! ## Expressions -/

/-- The value of an expression in a store, unless it is stuck. -/
def Node.eval (σ : Store) : Node → Option Value
  | .bool b => some (.bool b)
  | .number (.int n) => some (.int n)
  | .string s _ => some (.string s)
  | .var v => σ v
  | .unary op e _ => (e.eval σ).bind (Value.unary op)
  | .binary op l r _ =>
    (l.eval σ).bind fun x =>
      match x.shortcut op with
      | some z => some z
      | none => (r.eval σ).bind (Value.binary op x)
  | .conditional c t a _ =>
    match t.eval σ with
    | some (.bool true) => c.eval σ
    | some (.bool false) => a.eval σ
    | _ => none
  | .index a i _ => (a.eval σ).bind fun x => (i.eval σ).bind (Value.charAt x)
  | _ => none

/-! ## Statements -/

/-- How a statement ends: by running through, or by leaving the loop around it. -/
inductive Ending where
  | through
  | broken
deriving DecidableEq, Repr, Inhabited

/-- What can be run. -/
inductive Task where
  /-- One statement. -/
  | stmt (n : Node)
  /-- Statements in their order. -/
  | stmts (items : List Node)
  /-- The rounds of a loop with a test and a step, behind its declaration. -/
  | rounds (test : Node) (target : Variable) (source : Node) (body : List Node)
  /-- The rounds of a loop that sets its iterator to one value after another. -/
  | items (iterator : Variable) (values : List Value) (body : List Node)

/-- A task runs from one store to another, ends in some way and prints some values.
The alternative of a branch is a list of statements or a further branch. -/
inductive Run : Task → Store → Ending → Store → List Value → Prop where
  | print {σ e x} : e.eval σ = some x → Run (.stmt (.print e)) σ .through σ [x]
  | declare {σ v e x} : e.eval σ = some x →
      Run (.stmt (.declare v e)) σ .through (σ.set v x) []
  | assign {σ v e x} : e.eval σ = some x →
      Run (.stmt (.assign v e)) σ .through (σ.set v x) []
  | exit {σ} : Run (.stmt .exit) σ .broken σ []
  | shortIfTrue {σ t c s τ o} : t.eval σ = some (.bool true) →
      Run (.stmts c) σ s τ o → Run (.stmt (.shortIf t c)) σ s τ o
  | shortIfFalse {σ t c} : t.eval σ = some (.bool false) →
      Run (.stmt (.shortIf t c)) σ .through σ []
  | ifTrue {σ t c a s τ o} : t.eval σ = some (.bool true) →
      Run (.stmts c) σ s τ o → Run (.stmt (.ifElse t c a)) σ s τ o
  | ifFalse {σ t c a s τ o} : t.eval σ = some (.bool false) →
      Run (.stmts a.spread) σ s τ o → Run (.stmt (.ifElse t c a)) σ s τ o
  | whileFalse {σ t b} : t.eval σ = some (.bool false) →
      Run (.stmt (.whileLoop t b)) σ .through σ []
  | whileTrue {σ t b ρ τ s o o'} : t.eval σ = some (.bool true) →
      Run (.stmts b) σ .through ρ o → Run (.stmt (.whileLoop t b)) ρ s τ o' →
      Run (.stmt (.whileLoop t b)) σ s τ (o ++ o')
  | whileBreak {σ t b τ o} : t.eval σ = some (.bool true) →
      Run (.stmts b) σ .broken τ o → Run (.stmt (.whileLoop t b)) σ .through τ o
  | forLoop {σ v e x t w f b s τ o} : e.eval σ = some x →
      Run (.rounds t w f b) (σ.set v x) s τ o →
      Run (.stmt (.forLoop (.declare v e) t (.assign w f) b false)) σ s τ o
  | unrolled {σ v e x t i b τ o} : e.eval σ = some x →
      Run (.stmts b) (σ.set v x) .through τ o →
      Run (.stmt (.forLoop (.declare v e) t i b true)) σ .through τ o
  | forEach {σ v e x xs b s τ o} : e.eval σ = some x → x.items? = some xs →
      Run (.items v xs b) σ s τ o → Run (.stmt (.forEach v e b)) σ s τ o
  | nil {σ} : Run (.stmts []) σ .through σ []
  | cons {σ n rest ρ τ s o o'} : Run (.stmt n) σ .through ρ o →
      Run (.stmts rest) ρ s τ o' → Run (.stmts (n :: rest)) σ s τ (o ++ o')
  | consBreak {σ n rest τ o} : Run (.stmt n) σ .broken τ o →
      Run (.stmts (n :: rest)) σ .broken τ o
  | roundsEnd {σ t w f b} : t.eval σ = some (.bool false) →
      Run (.rounds t w f b) σ .through σ []
  | roundsNext {σ t w f b ρ x τ s o o'} : t.eval σ = some (.bool true) →
      Run (.stmts b) σ .through ρ o → f.eval ρ = some x →
      Run (.rounds t w f b) (ρ.set w x) s τ o' →
      Run (.rounds t w f b) σ s τ (o ++ o')
  | roundsBreak {σ t w f b τ o} : t.eval σ = some (.bool true) →
      Run (.stmts b) σ .broken τ o → Run (.rounds t w f b) σ .through τ o
  | itemsEnd {σ v b} : Run (.items v [] b) σ .through σ []
  | itemsNext {σ v x xs b ρ τ s o o'} : Run (.stmts b) (σ.set v x) .through ρ o →
      Run (.items v xs b) ρ s τ o' → Run (.items v (x :: xs) b) σ s τ (o ++ o')
  | itemsBreak {σ v x xs b τ o} : Run (.stmts b) (σ.set v x) .broken τ o →
      Run (.items v (x :: xs) b) σ .through τ o

/-- A program runs through from the empty store and prints the given values. -/
def Node.Outputs (p : Node) (o : List Value) : Prop :=
  ∃ statements τ, p = .program statements ∧ Run (.stmts statements) .empty .through τ o

end Squishc
