import Squishc.CommandLine.Run

/-!
# The compiler as a program

A run on the system itself.
-/

namespace Squishc.CommandLine

/-- The standard streams and the file system. -/
def systemHost : Host IO where
  readInput := do (← IO.getStdin).readBinToEnd
  readFile path := do
    try return some (← IO.FS.readBinFile path)
    catch _ => return none
  writeFile path text := do
    try
      IO.FS.writeFile path text
      return true
    catch _ => return false
  print text := IO.print text
  printError text := IO.eprint text

end Squishc.CommandLine

open Squishc.CommandLine in
/-- The compiler. -/
def main (arguments : List String) : IO UInt32 := do
  match ← (serve systemHost arguments).run with
  | .ok exitCode => return exitCode.toUInt32
  | .error _ =>
    systemHost.printError (errorLine "number with too many digits")
    return 1
