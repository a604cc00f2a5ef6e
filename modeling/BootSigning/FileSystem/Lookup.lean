import BootSigning.FileSystem.Basic

/-!
# Looking up paths

How a path leads to a place, through symbolic links, and what can be read there.

* `FileSystem.walk`: the walk along the names of a path, with a bound on the links it may follow
* `FileSystem.resolve`: a path to its place
* `FileSystem.stat`, `FileSystem.isFile`, `FileSystem.isExecutable`, `FileSystem.isDirectory`,
  `FileSystem.isPresent`: what stands where a path leads
* `FileSystem.openDirectory`, `FileSystem.namesAt`: a directory that is to be listed, and its names
* `FileSystem.read`, `FileSystem.canonical`
-/

namespace BootSigning

namespace FileSystem

/-- How a walk treats the last name of a path. -/
structure LastName where
  /-- A symbolic link there is followed. -/
  follow : Bool
  /-- Nothing need be there yet. -/
  create : Bool

/-- A path that must lead to something, through every link. -/
def LastName.target : LastName := ⟨true, false⟩

/-- A path that may end in a link, which is then what is meant. -/
def LastName.itself : LastName := ⟨false, false⟩

/-- The length that no path may reach, in bytes. -/
def maxPath : Nat := 4096

/-- The number of links one look-up may follow. -/
def maxLinks : Nat := 40

/-- The place where the names of a path start. -/
def origin (here : Location) (p : Path) : Location := if p.isAbsolute then [] else here

/-- What keeps a name from being looked up in a directory; between two slashes there is no name. -/
def barrier? (fs : FileSystem) (here : Location) (name : Name) : Option Errno :=
  if name = [] then none else fs.refusal here .execute

/--
A walk from a place along names. `jump` goes on from a place along names after a symbolic link has
been replaced by its target.
-/
def walkNames (fs : FileSystem) (last : LastName)
    (jump : Location → List Name → Except Errno Location) :
    Location → List Name → Except Errno Location
  | here, [] => .ok here
  | here, name :: rest =>
    match fs.node? here with
    | none => .error .noEntry
    | some .directory =>
      match fs.barrier? here name with
      | some errno => .error errno
      | none =>
        if isIdle name then fs.walkNames last jump here rest
        -- above the root there is only the root
        else if isUp name then fs.walkNames last jump here.tail rest
        else if maxName < name.length then .error .nameTooLong
        else match fs.node? (name :: here) with
          -- something new can be made in a directory that is there, and nowhere else
          | none => if rest.isEmpty && last.create then .ok (name :: here) else .error .noEntry
          | some (.symlink target) =>
            if rest.isEmpty && !last.follow then .ok (name :: here)
            else jump (origin here target) (target.pieces ++ rest)
          | some _ => fs.walkNames last jump (name :: here) rest
    | some _ => .error .notDirectory

/-- A walk that follows at most the given number of links. -/
def walk (fs : FileSystem) (last : LastName) : Nat → Location → List Name → Except Errno Location
  | 0 => fs.walkNames last fun _ _ => .error .tooManyLinks
  | links + 1 => fs.walkNames last (fs.walk last links)

def resolve (fs : FileSystem) (last : LastName) (p : Path) : Except Fault Location :=
  if p.bytes.contains 0 then .error .zeroInPath
  else if p.bytes = [] then .error (.os .noEntry)
  else if maxPath ≤ p.bytes.length then .error (.os .nameTooLong)
  else match fs.walk last maxLinks (origin fs.cwd p) p.pieces with
    | .ok loc => .ok loc
    | .error errno => .error (.os errno)

/-! ## What a path names -/

def stat (fs : FileSystem) (p : Path) : Except Fault Node := do
  match fs.node? (← fs.resolve .target p) with
  | some node => pure node
  | none => throw (.os .noEntry)

def isFile (fs : FileSystem) (p : Path) : Bool :=
  match fs.stat p with
  | .ok (.file _ _) => true
  | _ => false

/-- The mode lets someone run a file. -/
def mayRun (mode : Nat) : Bool := mode &&& 0o111 != 0

def isExecutable (fs : FileSystem) (p : Path) : Bool :=
  match fs.resolve .target p with
  | .ok loc =>
    match fs.node? loc with
    | some (.file mode _) => mayRun mode && (fs.refusal loc .execute).isNone
    | _ => false
  | .error _ => false

def isDirectory (fs : FileSystem) (p : Path) : Bool :=
  match fs.stat p with
  | .ok .directory => true
  | _ => false

/-- The path names something, if only a link that leads nowhere. -/
def isPresent (fs : FileSystem) (p : Path) : Bool :=
  (fs.resolve .itself p).toBool

/-- The place of the directory a path leads to, if it can be listed. -/
def openDirectory (fs : FileSystem) (p : Path) : Except Fault Location := do
  let loc ← fs.resolve .target p
  if fs.node? loc = some .directory then
    fs.permit loc .read
    pure loc
  else throw (.os .notDirectory)

/-- The names in the directory a path leads to, if it can be listed. -/
def namesAt (fs : FileSystem) (p : Path) : List Name :=
  match fs.openDirectory p with
  | .ok loc => fs.names loc
  | .error _ => []

/-- The bytes of the file a path leads to. -/
def read (fs : FileSystem) (p : Path) : Except Fault (List UInt8) := do
  let loc ← fs.resolve .target p
  match fs.node? loc with
  | none => throw (.os .noEntry)
  | some node =>
    fs.permit loc .read
    match node with
    | .file _ content => pure content
    | .directory => throw (.os .isDirectory)
    -- a device has nothing to read
    | _ => pure []

/-- The text of the file a path leads to. -/
def readText (fs : FileSystem) (p : Path) : Except Fault String := do
  match Utf8.text? (← fs.read p) with
  | some text => pure text
  | none => throw .notText

/-- The path of a place from the root, without links and dots. -/
def pathOf (loc : Location) : Path :=
  if loc = [] then ⟨[Path.slash]⟩ else ⟨loc.reverse.flatMap (Path.slash :: ·)⟩

/-- The path of the place a path leads to. -/
def canonical (fs : FileSystem) (p : Path) : Except Fault Path := do
  let real := pathOf (← fs.resolve .target p)
  -- the place may be too deep for this path, or a directory above it closed to the process
  let _ ← fs.resolve .target real
  pure real

end FileSystem

end BootSigning
