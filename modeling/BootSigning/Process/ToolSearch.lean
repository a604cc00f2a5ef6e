import BootSigning.FileSystem.Lookup
import BootSigning.Process.Environment

/-!
# Looking for tools

Whether a program can be called by a name.

* `Environment.candidates`: the paths that a name may stand for
* `Environment.isAvailable`: one of them can be run
-/

namespace BootSigning

namespace Environment

/-- A directory of the search path; a tilde at its front stands for the home directory. -/
def expandHome (e : Environment) (dir : Path) : Path :=
  match dir.pieces with
  | [0x7E] :: rest => rest.foldl (fun base piece => base / (⟨piece⟩ : Path)) e.home
  | _ => dir

/-- The paths that a name may stand for: itself if it has several components, else one for each
directory of the search path. -/
def candidates (e : Environment) (name : Path) : List Path :=
  if 1 < name.components.length then [name]
  else (splitSearchPath e.searchPath).map fun dir => e.expandHome dir / name

/-- A program can be called by the name. -/
def isAvailable (e : Environment) (fs : FileSystem) (name : Path) : Bool :=
  (e.candidates name).any fs.isExecutable

end Environment

end BootSigning
