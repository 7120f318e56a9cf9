import Squishc.Compile

/-!
# Command lines

What the arguments of the compiler ask for.  Options may stand anywhere and the
last one of a kind counts.  At most one argument names an input file; a single
dash stands for the standard input.
-/

namespace Squishc.CommandLine

/-- The help text. -/
def usage : String :=
  "squishi [OPTIONS] [INPUT] [-o OUTPUT]\n" ++
  "\n" ++
  "Compile a Squishi program to JavaScript. Reads INPUT, or stdin when omitted.\n" ++
  "\n" ++
  "Options:\n" ++
  "  --output-type TYPE  Stop after stage: analyzed, optimized, js (default: js)\n" ++
  "  -o, --output FILE   Write output to FILE instead of stdout\n" ++
  "  --help              Show this help message\n"

/-- What to compile and where to put the result.  Without an input path the
standard input is read; without an output path the result is printed. -/
structure Options where
  stage : Stage
  input? : Option String
  output? : Option String
deriving DecidableEq, Repr, Inhabited

/-- What the arguments ask for. -/
inductive Command where
  | help
  | compile (options : Options)
deriving DecidableEq, Repr, Inhabited

/-- Why arguments make no sense. -/
inductive UsageFault where
  | missingValue (flag : String)
  | unknownFlag (flag : String)
  | unexpectedArgument (argument : String)
  | unknownStage (stage : String)
deriving DecidableEq, Repr, Inhabited

/-- The message of a fault. -/
def UsageFault.message : UsageFault → String
  | missingValue flag => flag ++ " requires an argument"
  | unknownFlag flag => "unknown flag '" ++ flag ++ "'"
  | unexpectedArgument argument => "unexpected argument '" ++ argument ++ "'"
  | unknownStage stage => "unknown output type '" ++ stage ++ "'"

/-- What the arguments read so far have said. -/
structure Draft where
  stage : String
  input? : Option String
  output? : Option String
deriving DecidableEq, Repr, Inhabited

/-- What holds without any arguments. -/
def Draft.initial : Draft := ⟨Stage.js.text, none, none⟩

/-- The command when all arguments are read. -/
def Draft.finish (d : Draft) : Except UsageFault Command :=
  match Stage.ofText? d.stage with
  | some stage => .ok (.compile ⟨stage, d.input?, d.output?⟩)
  | none => .error (.unknownStage d.stage)

/-- An argument that asks for help. -/
def isHelp (argument : String) : Bool := argument == "--help" || argument == "-h"

/-- The option that sets the stage. -/
def isStageOption (argument : String) : Bool := argument == "--output-type"

/-- The option that sets the output path. -/
def isOutputOption (argument : String) : Bool := argument == "-o" || argument == "--output"

/-- An argument that begins with a dash and is more than that. -/
def looksLikeFlag (argument : String) : Bool :=
  argument.toList.head? == some '-' && argument != "-"

/-- The input path that an argument names. -/
def inputOf (argument : String) : Option String :=
  if argument == "-" then none else some argument

/-- Reads the remaining arguments. -/
def parseFrom (d : Draft) : List String → Except UsageFault Command
  | [] => d.finish
  | argument :: rest =>
    if isHelp argument then .ok .help
    else if isStageOption argument then
      match rest with
      | [] => .error (.missingValue argument)
      | value :: rest => parseFrom ⟨value, d.input?, d.output?⟩ rest
    else if isOutputOption argument then
      match rest with
      | [] => .error (.missingValue argument)
      | value :: rest => parseFrom ⟨d.stage, d.input?, some value⟩ rest
    else if looksLikeFlag argument then .error (.unknownFlag argument)
    else if d.input?.isSome then .error (.unexpectedArgument argument)
    else parseFrom ⟨d.stage, inputOf argument, d.output?⟩ rest

/-- What a list of arguments asks for. -/
def parse (arguments : List String) : Except UsageFault Command :=
  parseFrom .initial arguments

end Squishc.CommandLine
