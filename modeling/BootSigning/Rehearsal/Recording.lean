import BootSigning.Orchestration

/-!
# Recorded operations

Operations on artifacts that touch nothing, note every call, and fail on request.

* `OpCall`: a call of an operation
* `Rehearsal`: which artifacts count as crdyboot builds, and what fails
* `Rehearsal.ops`: the operations
-/

namespace BootSigning

/-- A call of an operation on an artifact. -/
inductive OpCall where
  | classify (artifact : Path)
  | inject (artifact : Path)
  | sign (artifact : Path)
  deriving DecidableEq, Repr

namespace OpCall

def artifact : OpCall → Path
  | .classify p | .inject p | .sign p => p

def verb : OpCall → String
  | .classify _ => "classify"
  | .inject _ => "inject"
  | .sign _ => "sign"

/-- The file names of the calls of one operation, in order. -/
def namesOf (verb : String) (calls : List OpCall) : List Name :=
  (calls.filter (·.verb == verb)).filterMap (·.artifact.fileName?)

end OpCall

structure Rehearsal where
  /-- The artifact counts as a crdyboot build. -/
  isCrdyboot : Path → Bool
  /-- File names that cannot be signed. -/
  signFailures : List Name
  /-- File names whose new signature turns out wrong. -/
  verifyFailures : List Name
  /-- File names that take no new key. -/
  injectFailures : List Name

namespace Rehearsal

def crdybootByName (artifact : Path) : Bool :=
  match artifact.fileName? with
  | some name => (Utf8.encode "crdyboot").isPrefixOf name
  | none => false

/-- The file name is among those listed. -/
def isListed (names : List Name) (artifact : Path) : Bool :=
  match artifact.fileName? with
  | some name => names.contains name
  | none => false

/-- The text of every failure on request. -/
def failure : String := "stubbed failure"

def noteCall {m : Type → Type} [Monad m] [MonadState (World (List OpCall)) m] (call : OpCall) :
    m Unit :=
  modify fun w => { w with memory := w.memory ++ [call] }

def ops (r : Rehearsal) : ArtifactOps (List OpCall) where
  classify artifact := do
    noteCall (.classify artifact)
    return r.isCrdyboot artifact
  inject artifact := do
    noteCall (.inject artifact)
    if isListed r.injectFailures artifact then
      throw (.injectionFailed artifact .updateSection failure)
  sign artifact := do
    noteCall (.sign artifact)
    if isListed r.verifyFailures artifact then
      throw (.verificationFailed artifact failure)
    return if isListed r.signFailures artifact then .skipped else .signed

end Rehearsal

end BootSigning
