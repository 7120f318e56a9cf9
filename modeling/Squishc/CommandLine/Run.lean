import Squishc.CommandLine.Directory
import Squishc.CommandLine.Options

/-!
# Runs of the compiler

A run reads its input, compiles it and delivers the result, on the standard
output or in a file.  All it does to the system around it goes through a `Host`.
`run` is a run on a host that is kept in memory.
-/

namespace Squishc.CommandLine

/-- Why a run that was asked for sensibly gives no result. -/
inductive RunFault where
  | cannotOpen (path : String)
  | cannotWrite (path : String)
  | invalidText
  | refused (d : Diagnostic)
deriving DecidableEq, Repr, Inhabited

/-- The message of a fault. -/
def RunFault.message : RunFault → String
  | cannotOpen path => "cannot open '" ++ path ++ "'"
  | cannotWrite path => "cannot write '" ++ path ++ "'"
  | invalidText => "invalid utf-8 in input"
  | refused d => d.text

/-- Why a run stops early: a fault, which it reports, or a failure that it does
not handle. -/
inductive Stop where
  | fault (f : RunFault)
  | failure (f : Failure)
deriving DecidableEq, Repr, Inhabited

/-- A message as it is printed. -/
def errorLine (message : String) : String := "error: " ++ message ++ "\n"

/-- A result as it is delivered. -/
def delivered (text : String) : String := text ++ "\n"

/-- The text that bytes compile to. -/
def compileBytes (stage : Stage) (bytes : ByteArray) : Except Stop String :=
  match String.fromUTF8? bytes with
  | none => .error (.fault .invalidText)
  | some source =>
    match compileTo source stage with
    | .ok text => .ok text
    | .error (.refused d) => .error (.fault (.refused d))
    | .error f => .error (.failure f)

/-! ## Runs on any host -/

/-- What a run can do to the system around it.  Reading gives nothing for a file
that cannot be opened, and writing says whether the file could be opened. -/
structure Host (m : Type → Type) where
  readInput : m ByteArray
  readFile : String → m (Option ByteArray)
  writeFile : String → String → m Bool
  print : String → m Unit
  printError : String → m Unit

section Host

variable {m : Type → Type} [Monad m] (host : Host m)

/-- Prints a message and gives an exit code. -/
def report (exitCode : Nat) (message : String) : ExceptT Failure m Nat := do
  host.printError (errorLine message)
  return exitCode

/-- The bytes of the file at a path, or of the standard input. -/
def loadBytes (input? : Option String) : ExceptT Stop m ByteArray := do
  match input? with
  | none => host.readInput
  | some path =>
    match ← host.readFile path with
    | some bytes => return bytes
    | none => throw (.fault (.cannotOpen path))

/-- Prints a result or stores it at a path. -/
def saveText (output? : Option String) (text : String) : ExceptT Stop m Unit := do
  match output? with
  | none => host.print (delivered text)
  | some path =>
    match ← host.writeFile path (delivered text) with
    | true => return ()
    | false => throw (.fault (.cannotWrite path))

/-- Loads, compiles and delivers. -/
def compileWith (options : Options) : ExceptT Stop m Unit := do
  let bytes ← loadBytes host options.input?
  let text ← MonadExcept.ofExcept (compileBytes options.stage bytes)
  saveText host options.output? text

/-- Compiles with the given options and gives an exit code. -/
def execute (options : Options) : ExceptT Failure m Nat := do
  match ← (compileWith host options).run with
  | .ok () => return 0
  | .error (.fault f) => report host 1 f.message
  | .error (.failure f) => throw f

/-- A run with the given arguments. -/
def serve (arguments : List String) : ExceptT Failure m Nat := do
  match parse arguments with
  | .error f => report host 2 f.message
  | .ok .help =>
    host.print usage
    return 0
  | .ok (.compile options) => execute host options

end Host

/-! ## Runs in memory -/

/-- A standard input, what has been printed so far, and a directory. -/
structure Session where
  stdin : ByteArray
  stdout : String
  stderr : String
  directory : Directory
deriving Inhabited

namespace Session

/-- A session in which nothing is printed yet. -/
def start (stdin : ByteArray) (d : Directory) : Session := ⟨stdin, "", "", d⟩

/-- Stores a text in a file. -/
def write (path text : String) (s : Session) : Bool × Session :=
  match s.directory.write? path text.toUTF8 with
  | some after => (true, { s with directory := after })
  | none => (false, s)

/-- A session as a host. -/
def host : Host (StateM Session) where
  readInput := modifyGet fun s => (s.stdin, s)
  readFile path := modifyGet fun s => (s.directory.read? path, s)
  writeFile path text := modifyGet (write path text)
  print text := modify fun s => { s with stdout := s.stdout ++ text }
  printError text := modify fun s => { s with stderr := s.stderr ++ text }

/-- A run with the given arguments: its exit code or the failure that escapes it,
and what it leaves behind in either case. -/
def serve (s : Session) (arguments : List String) : Except Failure Nat × Session :=
  (CommandLine.serve host arguments).run.run s

end Session

/-- What a run leaves behind. -/
structure Outcome where
  exitCode : Nat
  stdout : String
  stderr : String
  directory : Directory
deriving Inhabited

/-- A run with the given arguments, standard input and directory. -/
def run (arguments : List String) (stdin : ByteArray) (d : Directory) :
    Except Failure Outcome :=
  match (Session.start stdin d).serve arguments with
  | (.ok exitCode, s) => .ok ⟨exitCode, s.stdout, s.stderr, s.directory⟩
  | (.error f, _) => .error f

end Squishc.CommandLine
