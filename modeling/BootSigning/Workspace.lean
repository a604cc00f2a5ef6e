import BootSigning.World

/-!
# Workspaces

A run keeps its intermediate files in a fresh directory of its own and removes it at the end.

* `Surroundings`: where fresh directories go and how they may be named
* `Workspace.create`, `Workspace.file`: a fresh directory, and paths in it
* `Workspace.close`, `Workspace.discard`: its removal, with or without a report
-/

namespace BootSigning

/-- What a process is given for its fresh directories. -/
structure Surroundings where
  /-- The directory for temporary files. -/
  temporary : Path
  /-- Proposals for the last part of a fresh name, to be tried in order. -/
  proposals : List Name
  deriving DecidableEq, Repr

/-- A directory that one run owns. -/
structure Workspace where
  path : Path
  deriving DecidableEq, Repr

namespace Workspace

variable {σ : Type}

def namePrefix : Name := Utf8.encode "sign-uefi-"

/-- A fresh directory below `parent`, under the first proposed name that is free. -/
def makeFresh (fs : FileSystem) (parent : Path) : List Name → Except Fault (FileSystem × Path)
  | [] => .error (.atPath .namesExhausted parent)
  | proposal :: rest =>
    -- what holds a slash is not a name
    if proposal.contains Path.slash then makeFresh fs parent rest
    else
      let path := parent / (⟨namePrefix ++ proposal⟩ : Path)
      match fs.makeDirectory path with
      | .ok fs => .ok (fs, path)
      | .error fault =>
        -- only a name that is taken lets the next one be tried
        if fault = .os .alreadyExists then makeFresh fs parent rest else .error (.atPath fault path)

/-- The parent of a workspace, seen from the root. -/
def fromRoot (fs : FileSystem) (parent : Path) : Path :=
  if parent.isAbsolute then parent else FileSystem.pathOf fs.cwd / parent

def file (ws : Workspace) (name : Path) : Path := ws.path / name

def close (ws : Workspace) : Attempt σ Unit := do
  log .debug .workspace s!"removing workspace {ws.path}"
  let removal := (← files).removeDirectory ws.path
  setFiles removal.files
  match removal.fault with
  | none => return ()
  | some fault => throw (.io (.atPath fault ws.path))

/-- Removes the workspace as far as it can be removed. -/
def discard (ws : Workspace) : Action σ Unit := do
  setFiles ((← files).removeDirectory ws.path).files

/-- Creates a workspace below `parent`. -/
def createIn (around : Surroundings) (parent : Path) : Attempt σ Workspace := do
  let fs ← files
  match makeFresh fs (fromRoot fs parent) around.proposals with
  | .error fault => throw (.io fault)
  | .ok (fs, path) =>
    setFiles fs
    let ws : Workspace := ⟨path⟩
    if path.isText then
      log .debug .workspace s!"created workspace {path}"
      return ws
    else
      -- a path that is not text is of no use, and the directory goes with it
      (ws.discard : Action σ Unit)
      throw (.pathNotText path)

def create (around : Surroundings) : Attempt σ Workspace := createIn around around.temporary

end Workspace

end BootSigning
