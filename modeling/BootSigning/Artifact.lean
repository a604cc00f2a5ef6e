import BootSigning.Error

/-!
# Artifacts

The files that a run signs, and the groups it finds them in.

* `ArtifactGroup`, `Artifact`
* `fileName`: the file name of an artifact's path, which some operations need
-/

namespace BootSigning

inductive ArtifactGroup where
  | bootloader
  | crdyboot
  | syslinuxKernel
  | rootKernel
  deriving DecidableEq, Repr

def ArtifactGroup.text : ArtifactGroup → String
  | .bootloader => "bootloader"
  | .crdyboot => "crdyboot"
  | .syslinuxKernel => "syslinux kernel"
  | .rootKernel => "root kernel"

/-- A file to be signed. -/
structure Artifact where
  path : Path
  group : ArtifactGroup
  deriving DecidableEq, Repr

/-- The last component of a path, if it is a name. -/
def fileName (path : Path) : Except SignError Name :=
  match path.fileName? with
  | some name => .ok name
  | none => .error (.invalidArtifactPath path)

end BootSigning
