import BootSigning.Selection

/-!
# Boot directories

Where the artifacts of a boot directory are.

* `BootLayout`: the directory, and the paths below it
* `BootLayout.bootloaders`, `BootLayout.crdybootCandidates`, `BootLayout.syslinuxKernels`,
  `BootLayout.rootKernel?`: the artifacts of each group, as the files are now
-/

namespace BootSigning

structure BootLayout where
  target : Path
  deriving DecidableEq, Repr

namespace BootLayout

variable {σ : Type}

def bootloaderDir (layout : BootLayout) : Path := layout.target / ("efi/boot" : Path)

def syslinuxDir (layout : BootLayout) : Path := layout.target / ("syslinux" : Path)

/-- The link to the kernel of the root file system. -/
def rootKernelLink (layout : BootLayout) : Path := layout.target / ("vmlinuz" : Path)

/-- The bootloaders that a glob selects, in the order of their paths. -/
def bootloaders (layout : BootLayout) (glob : ArtifactGlob) : Attempt σ (List Artifact) := do
  return (← glob.matchingFiles layout.bootloaderDir).map (⟨·, .bootloader⟩)

/-- The named bootloaders that are regular files, in the order of the names. -/
def crdybootCandidates (layout : BootLayout) (names : List Path) : Action σ (List Artifact) := do
  let fs ← files
  let paths := names.map (layout.bootloaderDir / ·)
  (paths.filter (!fs.isFile ·)).forM fun path =>
    log .debug .locator s!"crdyboot candidate {path} not present"
  return (paths.filter fs.isFile).map (⟨·, .crdyboot⟩)

/-- The syslinux kernels that a glob selects, in the order of their paths. -/
def syslinuxKernels (layout : BootLayout) (glob : ArtifactGlob) : Attempt σ (List Artifact) := do
  return (← glob.matchingFiles layout.syslinuxDir).map (⟨·, .syslinuxKernel⟩)

/-- The real path of the root kernel. -/
def resolveRootKernel (layout : BootLayout) (fs : FileSystem) : Except Fault Path := do
  let path ← fs.canonical layout.rootKernelLink
  -- a path that is not text counts as unresolved
  if path.isText then pure path else throw (.pathNotText path)

/-- The kernel that the link leads to, if it leads to a regular file. -/
def rootKernel? (layout : BootLayout) : Action σ (Option Artifact) := do
  let fs ← files
  match layout.resolveRootKernel fs with
  | .error fault =>
    log .debug .locator s!"root kernel {layout.rootKernelLink} not resolvable: {fault.message}"
    return none
  | .ok path => return if fs.isFile path then some ⟨path, .rootKernel⟩ else none

end BootLayout

end BootSigning
