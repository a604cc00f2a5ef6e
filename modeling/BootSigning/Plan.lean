import BootSigning.Selection

/-!
# Plans and summaries

* `SigningPlan`: what a run looks for
* `Summary`: what a run did
-/

namespace BootSigning

structure SigningPlan where
  /-- Selects the bootloaders. -/
  bootloaders : ArtifactGlob
  /-- Selects the syslinux kernels. -/
  syslinuxKernels : ArtifactGlob
  /-- The bootloaders that may be crdyboot builds, by name. -/
  candidates : List Path

namespace SigningPlan

def syslinuxPattern : String := "vmlinuz.?"

/-- The names under which crdyboot builds are installed. -/
def defaultCandidates : List Path :=
  ["bootia32.efi", "bootx64.efi", "crdybootia32.efi", "crdybootx64.efi"].map Path.ofString

/-- The plan for a pattern of bootloaders. -/
def ofPattern (bootloaders : String) : Except SignError SigningPlan := do
  let bootloaders ← ArtifactGlob.ofPattern bootloaders
  let syslinuxKernels ← ArtifactGlob.ofPattern syslinuxPattern
  return ⟨bootloaders, syslinuxKernels, defaultCandidates⟩

end SigningPlan

/-- What a run did, in the order in which it was done. -/
structure Summary where
  /-- Signed, installed and verified. -/
  signed : List Artifact
  /-- Left without a signature because none could be made. -/
  skipped : List Artifact
  /-- Given a new kernel key. -/
  injected : List Artifact
  deriving DecidableEq, Repr

namespace Summary

/-- Nothing done. -/
def empty : Summary := ⟨[], [], []⟩

def describe (s : Summary) : String :=
  s!"signed {s.signed.length} file(s), skipped {s.skipped.length}, " ++
    s!"injected vbpubk into {s.injected.length}"

end Summary

end BootSigning
