import BootSigning.Credentials
import BootSigning.Tools
import BootSigning.Workspace

/-!
# Signing one file

A file is signed in four calls: its signature is removed, a signed copy is written to the
workspace, the copy is put in its place, and the new signature is checked.

* `Outcome`: signed, or skipped because no signature could be made
* `Signer`: what signing needs
* `Signer.install`, `Signer.produce`, `Signer.sign`: the four calls, from the last ones to all
-/

namespace BootSigning

inductive Outcome where
  | signed
  | skipped
  deriving DecidableEq, Repr

structure Signer (σ : Type) where
  tools : Tools σ
  credentials : Credentials
  workspace : Workspace

namespace Signer

variable {σ : Type}

/-- Puts the signed copy in place of the target and checks the result. -/
def install (s : Signer σ) (copy target : Path) : Attempt σ Outcome := do
  match (← s.tools.run (.privilegedCopy copy target true)).check with
  | .error message => throw (.installFailed target message)
  | .ok () =>
    match (← s.tools.run (.verify s.credentials.verificationCert target)).check with
    | .error message => throw (.verificationFailed target message)
    | .ok () => return .signed

/-- Writes a signed copy and installs it. -/
def produce (s : Signer σ) (copy target : Path) : Attempt σ Outcome := do
  match (← s.tools.run
      (.sign s.credentials.signingKey s.credentials.signingCert copy target)).check with
  | .error message =>
    -- what cannot be signed is skipped, and stays without a signature
    log .warn .signer s!"cannot sign {target}"
    log .debug .signer s!"sbsign: {message}"
    return .skipped
  | .ok () => s.install copy target

def sign (s : Signer σ) (target : Path) : Attempt σ Outcome := do
  log .info .signer s!"signing efi file {target}"
  let name ← fileName target
  -- may fail where there is no signature yet
  match (← s.tools.run (.stripSignature target)).check with
  | .error message => log .debug .signer s!"no signature removed from {target}: {message}"
  | .ok () => pure ()
  s.produce (s.workspace.file ⟨name⟩) target

end Signer

end BootSigning
