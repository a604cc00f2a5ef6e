import BootSigning.Error
import BootSigning.Process.Status
import BootSigning.Text.Blank

/-!
# What came of a program

* `Output`: a finished program's status and what it wrote
* `Reply`: an output, or the error that kept the program from starting
* `Output.failureMessage`: why a program failed, in one text
* `Reply.check`: success, or the text of the failure
-/

namespace BootSigning

structure Output where
  status : WaitStatus
  stdout : List UInt8
  stderr : List UInt8
  deriving DecidableEq, Repr, Inhabited

inductive Reply where
  /-- The program ran and ended. -/
  | finished (output : Output)
  /-- Nothing could be started. -/
  | notStarted (error : SignError)
  deriving DecidableEq, Repr

/-- Why a program failed: what it wrote as its error text, or else how it ended. -/
def Output.failureMessage (o : Output) : String :=
  let said := Text.trim (Utf8.lossy o.stderr)
  if said = "" then o.status.text else said

namespace Reply

/-- The program was started and ended well. -/
def succeeded : Reply → Bool
  | .finished output => output.status.success
  | .notStarted _ => false

/-- Success, or the text of what went wrong. -/
def check : Reply → Except String Unit
  | .finished output =>
    if output.status.success then .ok () else .error output.failureMessage
  | .notStarted e => .error e.message

end Reply

end BootSigning
