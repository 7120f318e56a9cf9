import Squishc.Node

/-!
# Unrolling loops

A loop that counts up by a fixed step and runs few enough rounds is replaced by
its rounds, one after another.  That is only done when a round cannot leave the
loop, cannot move the counter and declares nothing in its own block.
-/

namespace Squishc.Node

/-- The greatest number of rounds that are unrolled. -/
def unrollLimit : Nat := 64

mutual

/-- Whether running a statement may leave the loop around it. -/
def breaksOut : Node → Bool
  | exit => true
  | shortIf _ consequence => anyBreaksOut consequence
  | ifElse _ consequence (list items) => anyBreaksOut consequence || anyBreaksOut items
  | ifElse _ consequence alternate => anyBreaksOut consequence || alternate.breaksOut
  | _ => false

/-- Whether running some statements may leave the loop around them. -/
def anyBreaksOut : List Node → Bool
  | [] => false
  | n :: rest => n.breaksOut || anyBreaksOut rest

end

mutual

/-- Whether a statement holds an assignment to a variable. -/
def assigns (v : Variable) : Node → Bool
  | assign target _ => target = v
  | shortIf _ consequence => anyAssigns v consequence
  | ifElse _ consequence (list items) => anyAssigns v consequence || anyAssigns v items
  | ifElse _ consequence alternate => anyAssigns v consequence || alternate.assigns v
  | whileLoop _ body => anyAssigns v body
  | forLoop _ _ increment body _ => increment.assigns v || anyAssigns v body
  | forEach _ _ body => anyAssigns v body
  | define _ body => anyAssigns v body
  | _ => false

/-- Whether some statements hold an assignment to a variable. -/
def anyAssigns (v : Variable) : List Node → Bool
  | [] => false
  | n :: rest => n.assigns v || anyAssigns v rest

end

mutual

/-- Whether a statement declares a name in the block it stands in. -/
def declares : Node → Bool
  | declare _ _ => true
  | define _ _ => true
  | forLoop _ _ _ _ _ => true
  | shortIf _ consequence => anyDeclares consequence
  | ifElse _ consequence (list items) => anyDeclares consequence || anyDeclares items
  | ifElse _ consequence alternate => anyDeclares consequence || alternate.declares
  | _ => false

/-- Whether some statements declare a name in the block they stand in. -/
def anyDeclares : List Node → Bool
  | [] => false
  | n :: rest => n.declares || anyDeclares rest

end

/-- A counter that starts at `first` and grows by `delta` as long as it is below
`bound`. -/
structure Count where
  counter : Variable
  first : Int
  bound : Int
  delta : Int
deriving DecidableEq, Repr, Inhabited

/-- The number of rounds of a count with a positive step. -/
def Count.rounds (c : Count) : Nat :=
  (-((c.first - c.bound) / c.delta)).toNat

/-- The counter in the given round. -/
def Count.value (c : Count) (round : Nat) : Int :=
  c.first + round * c.delta

/-- The count that a header describes. -/
def count? : (declaration test increment : Node) → Option Count
  | declare v (number (.int first)), binary .lt (var tested) (number (.int bound)) _,
      assign target (binary .add (var added) (number (.int delta)) _) =>
    if tested = v && target = v && added = v && decide (0 < delta) then
      some ⟨v, first, bound, delta⟩
    else none
  | _, _, _ => none

/-- Whether a body may be repeated without its loop. -/
def repeatable (v : Variable) (body : List Node) : Bool :=
  !(anyBreaksOut body || anyAssigns v body || anyDeclares body)

/-- The rounds of a count, each of which sets the counter and runs the body. -/
def roundsOf (c : Count) (body : List Node) : List Node :=
  (List.range c.rounds).flatMap
    (fun round => assign c.counter (number (.int (c.value round))) :: body)

/-- What becomes of a loop with the given header and body. -/
def unroll (declaration test increment : Node) (body : List Node) : Node :=
  match count? declaration test increment with
  | some c =>
    if repeatable c.counter body && c.rounds ≤ unrollLimit then
      forLoop declaration test increment (roundsOf c body) true
    else forLoop declaration test increment body false
  | none => forLoop declaration test increment body false

end Squishc.Node
