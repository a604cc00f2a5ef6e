import BootSigning.Process.Executor

/-!
# Expected calls

An executor that answers an ordered list of expected calls and remembers every deviation.

* `Expectation`: a call and its answer
* `Expectations`: those still to come, and the deviations so far
* `Expectations.receive`: the answer to a call
* `Expectations.verdict`: whether exactly the expected calls were made
-/

namespace BootSigning

structure Expectation where
  call : Invocation
  reply : Reply
  deriving DecidableEq, Repr

/-- The calls that are still to come, and the deviations so far. -/
structure Expectations where
  remaining : List Expectation
  deviations : List String
  deriving DecidableEq, Repr

namespace Expectations

def ofList (expected : List Expectation) : Expectations := ⟨expected, []⟩

/-- The answer to a deviation, which is remembered. -/
def deviate (e : Expectations) (message : String) : Reply × Expectations :=
  (.notStarted (.stubMismatch message), { e with deviations := e.deviations ++ [message] })

/-- The answer to a call. Each call uses up one expectation, fitting or not. -/
def receive (e : Expectations) (call : Invocation) : Reply × Expectations :=
  match e.remaining with
  | [] => e.deviate s!"unexpected invocation: {call.line}"
  | next :: rest =>
    let e := { e with remaining := rest }
    if next.call = call then (next.reply, e)
    else e.deviate s!"expected `{next.call.line}`, received `{call.line}`"

def receiveAll (e : Expectations) : List Invocation → List Reply × Expectations
  | [] => ([], e)
  | call :: rest =>
    let (reply, e) := e.receive call
    let (replies, e) := e.receiveAll rest
    (reply :: replies, e)

/-- Success if exactly the expected calls were made, in order; else what is wrong. -/
def verdict (e : Expectations) : Except String Unit :=
  if e.deviations ≠ [] then
    .error s!"mismatched command invocations: {Text.quotedList e.deviations}"
  else if e.remaining ≠ [] then
    .error ("expected further command invocations: " ++
      Text.quotedList (e.remaining.map (·.call.line)))
  else .ok ()

def executor : Executor Expectations where
  announce _ := []
  answer call e fs :=
    let (reply, e) := e.receive call
    (reply, e, fs)

end Expectations

end BootSigning
