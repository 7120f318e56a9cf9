import Squishc.Ty

/-!
# Entities

A declaration brings an entity into being: a variable or a function.  Every
entity has a number of its own, so two entities are the same exactly when they
are equal, whatever their names are.
-/

namespace Squishc

/-- A variable, a parameter or the item of a loop. -/
structure Variable where
  id : Nat
  name : String
  type : Ty
deriving DecidableEq, Repr, Inhabited

/-- A function and its parameters. -/
structure Function where
  id : Nat
  name : String
  params : List Variable
deriving DecidableEq, Repr, Inhabited

/-- What a name can stand for. -/
inductive Entity where
  | var (v : Variable)
  | function (f : Function)
deriving DecidableEq, Repr, Inhabited

/-- The name under which an entity was declared. -/
def Entity.name : Entity → String
  | var v => v.name
  | function f => f.name

end Squishc
