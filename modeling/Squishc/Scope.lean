import Squishc.Diagnostic
import Squishc.Entity

/-!
# Scopes

A scope holds the entities that were declared in it, in the order of their
declarations, and what holds inside it: whether a loop surrounds it and whose
body it belongs to.  A name is looked up in a chain of scopes, from the
innermost outwards.

Main results:

- Theorem `find?_declare?`: a declaration changes what its own name stands for
  and nothing else.
-/

namespace Squishc

/-- One scope.  The owner is the function to whose body the scope belongs. -/
structure Scope where
  locals : List (String × Entity)
  inLoop : Bool
  owner? : Option Entity
deriving DecidableEq, Repr, Inhabited

namespace Scope

/-- The scope of a whole program. -/
def root : Scope := ⟨[], false, none⟩

/-- A scope inside this one.  It has the same owner unless it is given one of its
own. -/
def child (s : Scope) (inLoop : Bool) (owner? : Option Entity) : Scope :=
  ⟨[], inLoop, owner?.or s.owner?⟩

/-- Whether the rules on types hold in a scope, which is outside functions. -/
def strict (s : Scope) : Bool := s.owner?.isNone

/-- What a name stands for in a scope itself. -/
def find? (s : Scope) (name : String) : Option Entity :=
  (s.locals.find? (fun entry => entry.1 = name)).map Prod.snd

/-- The scope with one more declaration, unless the name is taken in it. -/
def declare? (s : Scope) (name : String) (e : Entity) : Option Scope :=
  if (s.find? name).isSome then none
  else some ⟨s.locals ++ [(name, e)], s.inLoop, s.owner?⟩

/-- The names of a scope in the order of their declarations. -/
def names (s : Scope) : List String := s.locals.map Prod.fst

/-- A declaration gives its name an entity and leaves all other names as they
are. -/
theorem find?_declare? {s t : Scope} {name : String} {e : Entity}
    (h : s.declare? name e = some t) (other : String) :
    t.find? other = if other = name then some e else s.find? other := by
  unfold declare? at h
  split at h
  · cases h
  · rename_i free
    cases h
    by_cases same : other = name
    · subst same
      have absent : s.locals.find? (fun entry => entry.1 = other) = none := by
        simpa only [find?, Bool.not_eq_true, Option.isSome_map, Option.isSome_eq_false_iff,
          Option.isNone_iff_eq_none] using free
      simp [find?, List.find?_append, absent]
    · have differs : ¬ name = other := fun h => same h.symm
      simp [find?, List.find?_append, same, differs]

end Scope

/-- A scope and the scopes around it, the innermost first. -/
abbrev Chain := List Scope

/-- What a name stands for: the entity of the innermost scope that declares
it. -/
def Chain.resolve? (chain : Chain) (name : String) : Option Entity :=
  chain.findSome? (fun s => s.find? name)

/-- Why a name cannot be declared or resolved. -/
inductive ScopeFault where
  | alreadyDeclared (name : String)
  | notDeclared (name : String)
deriving DecidableEq, Repr, Inhabited

namespace ScopeFault

/-- The category of a fault. -/
def category : ScopeFault → Category
  | alreadyDeclared _ => .alreadyDeclared
  | notDeclared _ => .notDeclared

/-- The message of a fault. -/
def message : ScopeFault → String
  | alreadyDeclared name => "Identifier " ++ name ++ " already declared"
  | notDeclared name => "Identifier " ++ name ++ " not declared"

end ScopeFault

end Squishc
