/-!
# Positions and diagnostics

A diagnostic is what a user sees when a program is refused: a category, a
message and, where one is known, a position in the source.  Categories form a
tree under the general one.
-/

namespace Squishc

/-- A place in a source text.  Lines and columns count from one; a tree that was
not read from a text may carry any numbers, and a line below one means that no
place is known. -/
structure Pos where
  line : Int
  col : Int
deriving DecidableEq, Repr, Inhabited

namespace Pos

/-- The first character of a text. -/
def start : Pos := ⟨1, 1⟩

/-- No known place. -/
def unknown : Pos := ⟨0, 0⟩

/-- The place `n` characters further on the same line. -/
def right (p : Pos) (n : Nat) : Pos := ⟨p.line, p.col + n⟩

/-- The beginning of the next line. -/
def nextLine (p : Pos) : Pos := ⟨p.line + 1, 1⟩

end Pos

/-- What kind of rule a program broke. -/
inductive Category where
  | general
  | lexical
  | grammatical
  | analysis
  | alreadyDeclared
  | notDeclared
  | notAFunction
  | arityMismatch
  | typeMismatch
  | expectedBoolean
  | expectedNumber
  | expectedNumberOrString
  | notInLoop
  | notInFunction
  | notIterable
  | unknownStage
deriving DecidableEq, Repr, Inhabited

namespace Category

/-- A category followed by the wider ones it belongs to, up to the general one. -/
def lineage : Category → List Category
  | general => [general]
  | lexical => [lexical, general]
  | grammatical => [grammatical, general]
  | analysis => [analysis, general]
  | expectedBoolean => [expectedBoolean, typeMismatch, analysis, general]
  | expectedNumber => [expectedNumber, typeMismatch, analysis, general]
  | expectedNumberOrString => [expectedNumberOrString, typeMismatch, analysis, general]
  | unknownStage => [unknownStage, general]
  | c => [c, analysis, general]

end Category

/-- A refusal that names the rule, says what is wrong and where. -/
structure Diagnostic where
  category : Category
  message : String
  pos : Pos
deriving DecidableEq, Repr, Inhabited

/-- The text of a diagnostic: the place comes first when one is known. -/
def Diagnostic.text (d : Diagnostic) : String :=
  if 0 < d.pos.line then
    "Line " ++ toString d.pos.line ++ ", col " ++ toString d.pos.col ++ ": " ++ d.message
  else
    d.message

end Squishc
