import BootSigning.FileSystem.Lookup

/-!
# Changing files

* `FileSystem.write`: a file with new content
* `FileSystem.makeDirectory`, `FileSystem.makeDirectories`: one directory, or all on a path
* `FileSystem.link`: a symbolic link
* `FileSystem.setMode`: permission bits
* `FileSystem.removalSteps`, `FileSystem.removeTree`: the removal of a place and all below it, step
  by step until the system refuses one
* `FileSystem.remove`, `FileSystem.removeDirectory`: the same for what a path names
* `Entry`, `Entry.apply`: one item of a list that describes files, and its effect
-/

namespace BootSigning

namespace FileSystem

/-- The permission bits of a new file. -/
def newFileMode : Nat := 0o644

/-- A file with the given content where the path leads. -/
def write (fs : FileSystem) (p : Path) (content : List UInt8) : Except Fault FileSystem := do
  let loc ← fs.resolve ⟨true, true⟩ p
  match fs.node? loc with
  | none =>
    fs.permit loc.tail .write
    pure (fs.insert loc (.file newFileMode content))
  -- a file that is there keeps its mode
  | some (.file mode _) =>
    fs.permit loc .write
    pure (fs.insert loc (.file mode content))
  | some .directory => throw (.os .isDirectory)
  -- a device takes everything; a link cannot be here, since the walk follows it
  | some _ =>
    fs.permit loc .write
    pure fs

/-- More content at the end of the file where the path leads. -/
def append (fs : FileSystem) (p : Path) (content : List UInt8) : Except Fault FileSystem :=
  match fs.stat p with
  | .ok (.file _ old) => fs.write p (old ++ content)
  | _ => fs.write p content

/-- A new node at a path where nothing is yet. -/
def place (fs : FileSystem) (p : Path) (node : Node) : Except Fault FileSystem := do
  let loc ← fs.resolve ⟨false, true⟩ p
  match fs.node? loc with
  | none =>
    fs.permit loc.tail .write
    pure (fs.insert loc node)
  | some _ => throw (.os .alreadyExists)

/-- A path without slashes at its end. -/
def withoutEndSlashes (p : Path) : Path :=
  if p.bytes.all (· == Path.slash) then p
  else ⟨(p.bytes.reverse.dropWhile (· == Path.slash)).reverse⟩

def makeDirectory (fs : FileSystem) (p : Path) : Except Fault FileSystem :=
  fs.place (withoutEndSlashes p) .directory

def link (fs : FileSystem) (p target : Path) : Except Fault FileSystem :=
  if target.bytes.contains 0 then .error .zeroInPath
  else if target.bytes = [] then .error (.os .noEntry)
  else fs.place p (.symlink target)

/-- The directories on the way from `dir` along names. -/
def beginningsFrom (dir : Path) : List Name → List Path
  | [] => []
  | name :: rest =>
    let next := dir / (⟨name⟩ : Path)
    next :: beginningsFrom next rest

/-- The directories that a path passes through, itself included. -/
def beginnings (p : Path) : List Path :=
  beginningsFrom (if p.isAbsolute then ⟨[Path.slash]⟩ else ⟨[]⟩) (p.pieces.filter (· ≠ []))

/-- Every directory on a path, where it is missing. -/
def makeDirectories (fs : FileSystem) (p : Path) : Except Fault FileSystem :=
  (beginnings p).foldlM
    (fun fs dir => if fs.isDirectory dir then .ok fs else fs.makeDirectory dir) fs

/-- The mode lets the owner of a file run it. -/
def ownerMayRun (mode : Nat) : Bool := mode &&& 0o100 != 0

/-- New permission bits for the file where the path leads; who sets them is its owner. -/
def setMode (fs : FileSystem) (p : Path) (mode : Nat) : Except Fault FileSystem := do
  let loc ← fs.resolve .target p
  match fs.node? loc with
  | some (.file _ content) =>
    let reason := if ownerMayRun mode then none else some Errno.accessDenied
    pure ((fs.insert loc (.file mode content)).withRefusal loc .execute reason)
  | _ => pure fs

/-! ## Removing -/

/-- One step in the removal of a tree. -/
inductive RemovalStep where
  /-- The names in a directory are read. -/
  | list (dir : Location)
  /-- What stands at a place, with nothing below it any more, is taken away. -/
  | unlink (loc : Location)
  deriving DecidableEq, Repr

/-- The removal of a place: of all below it first, as deep as the number says. -/
def removalSteps (fs : FileSystem) : Nat → Location → List RemovalStep
  | 0, loc => [.unlink loc]
  | depth + 1, loc =>
    if fs.node? loc = some .directory then
      .list loc :: (fs.names loc).flatMap (fun name => fs.removalSteps depth (name :: loc)) ++
        [.unlink loc]
    else [.unlink loc]

/-- How long the longest place is. -/
def depth (fs : FileSystem) : Nat :=
  (fs.nodes.map fun entry => entry.1.length).foldr max 0

/-- The accesses that a step needs. -/
def RemovalStep.needs : RemovalStep → List (Location × Access)
  | .list dir => [(dir.tail, .execute), (dir, .read)]
  | .unlink loc => [(loc.tail, .execute), (loc.tail, .write), (loc, .remove)]

/-- What keeps a step from being done; the root is always in use. -/
def RemovalStep.obstacle? (fs : FileSystem) (step : RemovalStep) : Option Errno :=
  if step = .unlink [] then some .busy
  else step.needs.findSome? fun need => fs.refusal need.1 need.2

def RemovalStep.carryOut (fs : FileSystem) : RemovalStep → FileSystem
  | .list _ => fs
  | .unlink loc => fs.eraseWithin loc

/-- The files after a change, and what stopped it, if it did not come to its end. -/
structure Change where
  files : FileSystem
  fault : Option Fault

/-- A change that was made as a whole or not at all. -/
def Change.ofResult (fs : FileSystem) : Except Fault FileSystem → Change
  | .ok changed => ⟨changed, none⟩
  | .error fault => ⟨fs, some fault⟩

/-- Removes a place and all below it; what was done before a refusal stays done. -/
def removeTree (fs : FileSystem) (loc : Location) : Change :=
  let steps := fs.removalSteps (fs.depth + 1) loc
  { files := (steps.takeWhile fun step => (step.obstacle? fs).isNone).foldl RemovalStep.carryOut fs
    fault := (steps.findSome? (RemovalStep.obstacle? fs)).map .os }

/-- Removes what the path names and all below it. -/
def remove (fs : FileSystem) (p : Path) : Change :=
  -- a link goes, its target stays
  match fs.resolve .itself (withoutEndSlashes p) with
  | .error fault => ⟨fs, some fault⟩
  | .ok loc => fs.removeTree loc

/-- Removes the directory a path names and all below it, or the link it names. -/
def removeDirectory (fs : FileSystem) (p : Path) : Change :=
  match fs.resolve .itself p with
  | .error fault => ⟨fs, some fault⟩
  | .ok loc =>
    match fs.node? loc with
    | some .directory | some (.symlink _) => fs.removeTree loc
    | _ => ⟨fs, some (.os .notDirectory)⟩

end FileSystem

/-! ## Lists of files -/

/-- What an entry leaves at its path. -/
inductive Entry.Kind where
  | nothing
  | directory
  | symlink (target : Path)
  | file (content : List UInt8)
  deriving DecidableEq, Repr

/-- One item of a list that describes files. -/
structure Entry where
  path : Path
  kind : Entry.Kind
  mode : Option Nat
  deriving DecidableEq, Repr

namespace Entry

/-- The directory a path lies in, as the path spells it. -/
def parent (p : Path) : Path :=
  let upTo := (FileSystem.withoutEndSlashes p).bytes.reverse.dropWhile (· != Path.slash)
  ⟨upTo.reverse⟩

/-- What an entry leaves at its path, the parent directory being there. -/
def placeKind (fs : FileSystem) (p : Path) : Kind → Except Fault FileSystem
  | .nothing => .ok (fs.remove p).files
  | .directory => fs.makeDirectories p
  | .symlink target => fs.link p target
  | .file content => fs.write p content

/-- The file system after a change, or as it was if the change failed. -/
def orUnchanged (fs : FileSystem) : Except Fault FileSystem → FileSystem
  | .ok changed => changed
  | .error _ => fs

/-- The effect of an entry. -/
def apply (fs : FileSystem) (e : Entry) : FileSystem :=
  match e.kind with
  | .nothing => (fs.remove e.path).files
  | kind =>
    -- Parent directories first; what was done before a step that fails stays done.
    match fs.makeDirectories (parent e.path) with
    | .error _ => fs
    | .ok inDirectory =>
      match placeKind inDirectory e.path kind, e.mode with
      | .error _, _ => inDirectory
      | .ok placed, none => placed
      | .ok placed, some mode => orUnchanged placed (placed.setMode e.path mode)

def applyAll (fs : FileSystem) (entries : List Entry) : FileSystem := entries.foldl apply fs

end Entry

end BootSigning
