import BootSigning.Injection
import BootSigning.Orchestration
import BootSigning.Sbat.Classify

/-!
# Signing sessions

* `Session`: a signer with the key directory that new kernel keys come from
* `Session.ops`: the operations on artifacts, by means of the tools
* `SignRequest`, `signTargetDir`: a whole run, from its preconditions to the end of its workspace
-/

namespace BootSigning

structure Session (σ : Type) where
  signer : Signer σ
  keyDir : Path

namespace Session

variable {σ : Type}

def ops (s : Session σ) : ArtifactOps σ where
  classify artifact := Sbat.isCrdyboot s.signer.tools s.signer.workspace.path artifact
  inject artifact :=
    Injection.inject s.signer.tools s.keyDir s.signer.workspace.path artifact
  sign artifact := s.signer.sign artifact

def finish (s : Session σ) : Attempt σ Unit := s.signer.workspace.close

/-- Ends the session without a word. -/
def discard (s : Session σ) : Action σ Unit := s.signer.workspace.discard

end Session

/-- What a run is asked to do. -/
structure SignRequest where
  /-- The boot directory. -/
  targetDir : Path
  /-- The directory of the keys. -/
  keyDir : Path
  /-- The pattern of bootloaders. -/
  bootloaders : String
  deriving DecidableEq, Repr

/-- Passes on an error of a computation without state. -/
def orFail {σ α : Type} : Except SignError α → Attempt σ α
  | .ok a => pure a
  | .error e => throw e

/-- Opens a session. -/
def Session.start {σ : Type} (around : Surroundings) (tools : Tools σ) (keyDir : Path) :
    Attempt σ (Session σ) := do
  -- without its credentials a session leaves no workspace behind
  let credentials ← orFail (Credentials.resolve (← files) keyDir)
  let workspace ← Workspace.create around
  return ⟨⟨tools, credentials, workspace⟩, keyDir⟩

/-- Signs every artifact of a boot directory, in a workspace that is removed at the end. -/
def signTargetDir {σ : Type} (around : Surroundings) (tools : Tools σ) (request : SignRequest) :
    Attempt σ Summary := do
  let plan ← orFail (SigningPlan.ofPattern request.bootloaders)
  let session ← Session.start around tools request.keyDir
  match ← resultOf (Orchestration.run ⟨request.targetDir⟩ plan session.ops) with
  | .ok summary =>
    session.finish
    return summary
  | .error e =>
    -- without a word, so that the error is what is reported
    session.discard
    throw e

end BootSigning
