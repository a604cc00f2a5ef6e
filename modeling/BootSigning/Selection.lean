import BootSigning.Artifact
import BootSigning.Glob.Walk
import BootSigning.World

/-!
# Selecting files by a glob

A pattern is laid below a directory whose name is taken literally, and selects regular files.

* `ArtifactGlob`, `ArtifactGlob.ofPattern`: a pattern that is known to be well formed
* `PassedOver`, `Selection`: what a walk comes upon and cannot use, and the files it selects
* `ArtifactGlob.select`: the selection below a directory
-/

namespace BootSigning

/-- A pattern that is well formed. -/
structure ArtifactGlob where
  pattern : String
  /-- The pattern can be read. -/
  wellFormed : (Glob.compile pattern.toList).isOk = true

/-- What a walk comes upon and cannot use. -/
inductive PassedOver where
  /-- A path that is not text. -/
  | notText (path : Path)
  /-- A directory that could not be listed. -/
  | unreadable (entry : Glob.Unreadable)
  deriving DecidableEq, Repr

def PassedOver.message : PassedOver → String
  | .notText path => s!"skipping non-UTF-8 path {path}"
  | .unreadable entry => s!"skipping unreadable entry: {entry.message}"

/-- The files below a directory that a pattern selects. -/
structure Selection where
  /-- The files, in the order of their paths. -/
  files : List Path
  /-- What was passed over, in the order of the walk. -/
  passedOver : List PassedOver
  deriving DecidableEq, Repr

namespace ArtifactGlob

/-- A pattern, if it is well formed. -/
def ofPattern (pattern : String) : Except SignError ArtifactGlob :=
  match h : Glob.compile pattern.toList with
  | .ok _ => .ok ⟨pattern, by simp [h, Except.isOk, Except.toBool]⟩
  | .error fault => .error (.invalidGlob pattern fault.message)

/-- The pattern below a directory. -/
def below (g : ArtifactGlob) (dir : Path) : List Char :=
  Glob.escape dir.text.toList ++ '/' :: g.pattern.toList

/-- The regular files that the paths of a walk lead to. -/
def choose (fs : FileSystem) (found : List (Except Glob.Unreadable Path)) : Selection where
  files :=
    ((found.filterMap Except.toOption).filter fun p => p.isText && fs.isFile p).mergeSort Path.le
  passedOver := found.filterMap fun
    | .error unreadable => some (.unreadable unreadable)
    | .ok p => if p.isText then none else some (.notText p)

/-- The regular files below `dir` that the pattern selects. -/
def select (g : ArtifactGlob) (fs : FileSystem) (dir : Path) : Except SignError Selection :=
  let full := g.below dir
  match Glob.Search.ofPattern full with
  | .error fault => .error (.invalidGlob (String.ofList full) fault.message)
  | .ok search => .ok (choose fs (search.run fs))

/-- The files of the selection; what was passed over is logged. -/
def matchingFiles {σ : Type} (g : ArtifactGlob) (dir : Path) : Attempt σ (List Path) := do
  match g.select (← files) dir with
  | .error e => throw e
  | .ok selection =>
    selection.passedOver.forM fun p => log .warn .locator p.message
    return selection.files

end ArtifactGlob

end BootSigning
