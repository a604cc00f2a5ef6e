import BootSigning.FileSystem.Edit
import BootSigning.Log
import BootSigning.Process.Output

/-!
# Executors

Whatever answers the calls of a run: real programs, a script, a list of expectations.

* `Invocation`: a program and its arguments
* `Executor`: the answers to calls; they may depend on earlier calls and on files, and change both
-/

namespace BootSigning

structure Invocation where
  program : String
  arguments : List String
  deriving DecidableEq, Repr

/-- The program and its arguments with blanks between. -/
def Invocation.line (i : Invocation) : String :=
  " ".intercalate (i.program :: i.arguments)

/-- Answers to calls, with a memory of type `σ`. -/
structure Executor (σ : Type) where
  /-- The records it logs when a call arrives. -/
  announce : Invocation → List LogRecord
  /-- The answer to a call, and what is changed by it. -/
  answer : Invocation → σ → FileSystem → Reply × σ × FileSystem

end BootSigning
