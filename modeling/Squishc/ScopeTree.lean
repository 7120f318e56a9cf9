import Squishc.Scope

/-!
# Trees of scopes

A tree of scopes grows from one root.  Scopes are numbered in the order in which
they are opened, and a declaration in a scope is seen by all scopes inside it,
whenever those were opened.
-/

namespace Squishc

/-- A scope and the number of the scope around it. -/
structure ScopeNode where
  scope : Scope
  parent? : Option Nat
deriving DecidableEq, Repr, Inhabited

/-- Scopes by their numbers. -/
structure ScopeTree where
  nodes : Array ScopeNode
deriving DecidableEq, Repr, Inhabited

namespace ScopeTree

/-- A tree with the root scope only. -/
def root : ScopeTree := ⟨#[⟨.root, none⟩]⟩

/-- The scope with the given number. -/
def scope? (t : ScopeTree) (n : Nat) : Option Scope :=
  t.nodes[n]?.map ScopeNode.scope

/-- A scope and the scopes around it, the innermost first. -/
def chain (t : ScopeTree) (n : Nat) : Chain :=
  match t.nodes[n]? with
  | none => []
  | some ⟨scope, none⟩ => [scope]
  | some ⟨scope, some parent⟩ => if parent < n then scope :: chain t parent else [scope]
termination_by n

/-- Opens a scope inside another and gives its number. -/
def child (t : ScopeTree) (n : Nat) (inLoop : Bool) (owner? : Option Entity) :
    Option (Nat × ScopeTree) :=
  match t.scope? n with
  | none => none
  | some scope => some (t.nodes.size, ⟨t.nodes.push ⟨scope.child inLoop owner?, some n⟩⟩)

/-- Declares a name in a scope. -/
def declare (t : ScopeTree) (n : Nat) (name : String) (e : Entity) :
    Except ScopeFault ScopeTree :=
  match t.nodes[n]? with
  | none => .ok t
  | some node =>
    match node.scope.declare? name e with
    | none => .error (.alreadyDeclared name)
    | some scope => .ok ⟨t.nodes.setIfInBounds n ⟨scope, node.parent?⟩⟩

/-- What a name stands for, seen from a scope. -/
def resolve (t : ScopeTree) (n : Nat) (name : String) : Except ScopeFault Entity :=
  match (t.chain n).resolve? name with
  | none => .error (.notDeclared name)
  | some e => .ok e

end ScopeTree

end Squishc
