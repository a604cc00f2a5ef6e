import BootSigning.Artifact
import BootSigning.Tools

/-!
# Injecting the kernel key

A crdyboot build carries the key that checks kernels in a section of its own. Before it is signed,
that section gets the key of the key directory.

* `payload`: the key
* `inject`: puts the key into an artifact, through a copy in the workspace
-/

namespace BootSigning.Injection

variable {σ : Type}

def sectionName : String := ".vbpubk"

/-- The key that is put in, beside the key directory. -/
def payload (keyDir : Path) : Path := keyDir / ("../kernel_subkey.vbpubk" : Path)

/-- The copy of an artifact with the new section. -/
def copyIn (workspace : Path) (name : Name) : Path :=
  workspace / (⟨name ++ Utf8.encode ".injected"⟩ : Path)

def mustRun (tools : Tools σ) (command : Command) (failure : String → SignError) :
    Attempt σ Unit := do
  match (← tools.run command).check with
  | .ok () => return ()
  | .error message => throw (failure message)

def inject (tools : Tools σ) (keyDir workspace artifact : Path) : Attempt σ Unit := do
  let name ← fileName artifact
  let copy := copyIn workspace name
  log .info .inject s!"adding new section {sectionName} to {Utf8.lossy name}"
  mustRun tools (.updateSection artifact sectionName (payload keyDir) copy)
    (.injectionFailed artifact .updateSection)
  mustRun tools (.privilegedCopy copy artifact false) (.injectionFailed artifact .copy)

end BootSigning.Injection
