import BootSigning.Glob.Pattern
import BootSigning.FileSystem.Lookup

/-!
# Walking a glob

The paths that a pattern with several components selects from a file system.

* `Segment`: one component of a pattern
* `Search`, `Search.ofPattern`: where a walk starts and the components it follows
* `Spot`: a path that a walk has come to
* `Spot.children`, `Spot.descendants`: what a directory lists, and everything below it, links to
  directories included
* `walk`: what components select from a directory, in the order of the walk, with a report of every
  directory that could not be listed
* `Search.run`: the walk of a whole pattern
-/

namespace BootSigning.Glob

/-! ## Components of a pattern -/

inductive Segment where
  /-- A name without any special character. -/
  | literal (name : List Char)
  /-- A pattern for one name. -/
  | wild (tokens : List Token)
  /-- Any directories. -/
  | tree
  deriving DecidableEq, Repr

def Segment.compile (component : List Char) : Except PatternFault Segment := do
  let tokens ← Glob.compile component
  if tokens = [.tree] then pure .tree
  else if component.any isMeta then pure (.wild tokens)
  else pure (.literal component)

def Segment.accepts (name : List Char) : Segment → Bool
  | .literal n => n == name
  | .wild tokens => Glob.accepts tokens name
  | .tree => false

/-- The component asks for a name that starts with a dot. -/
def Segment.startsWithDot : Segment → Bool
  | .literal n => n.head? == some '.'
  | .wild tokens => tokens.head? == some (.char '.')
  | .tree => false

/-- One of several `**` in a row. -/
def collapse : List Segment → List Segment
  | .tree :: .tree :: rest => collapse (.tree :: rest)
  | s :: rest => s :: collapse rest
  | [] => []

/-- A walk: its first directory, its components, and whether only directories count. -/
structure Search where
  start : Path
  segments : List Segment
  directoriesOnly : Bool
  deriving DecidableEq, Repr

/-- The pieces of a pattern between slashes; a slash at its end opens no piece. -/
def componentsOf (pattern : List Char) : List (List Char) :=
  let pieces := pattern.splitOn '/'
  if pieces.getLast? = some [] then pieces.dropLast else pieces

/-- The walk of a pattern. -/
def Search.ofPattern (pattern : List Char) : Except PatternFault Search := do
  -- The pattern is read as a whole first, then every component by itself, so that a set that
  -- holds a slash is refused here.
  let _ ← Glob.compile pattern
  let absolute := pattern.head? == some '/'
  let body := if absolute then pattern.drop 1 else pattern
  let segments ← (componentsOf body).mapM Segment.compile
  pure {
    start := if absolute then ⟨[Path.slash]⟩ else ⟨[Path.dot]⟩
    segments := collapse (if absolute && body.isEmpty then [.literal []] else segments)
    directoriesOnly := pattern.getLast? == some '/' }

/-! ## Steps -/

/-- A path that a walk has come to, and whether the walk takes it for a directory. -/
structure Spot where
  path : Path
  isDirectory : Bool
  deriving DecidableEq, Repr

/-- A directory that could not be listed. -/
structure Unreadable where
  dir : Path
  fault : Fault
  deriving DecidableEq, Repr

def Unreadable.message (u : Unreadable) : String :=
  s!"attempting to read `{u.dir}` resulted in an error: {u.fault.message}"

/-- Names in the order of their bytes. -/
def sortNames (names : List Name) : List Name :=
  names.mergeSort Name.le

/-- The path is the directory a relative walk starts from. -/
def isStart (dir : Path) : Bool := dir.components == [.here]

/-- A name in a directory; at the start of a relative walk the name alone. -/
def childPath (dir : Path) (name : Name) : Path :=
  if isStart dir then ⟨name⟩ else dir / (⟨name⟩ : Path)

namespace Spot

/-- A path that is looked up. -/
def lookUp (fs : FileSystem) (path : Path) : Spot := ⟨path, fs.isDirectory path⟩

/-- A path that a listing tells of; only a link has to be looked up. -/
def listed (fs : FileSystem) (path : Path) : Option Node → Spot
  | some .directory => ⟨path, true⟩
  | some (.symlink _) => lookUp fs path
  | _ => ⟨path, false⟩

/-- The names in a directory and where they lead, in the order of the names. -/
def children (fs : FileSystem) (spot : Spot) : Except Unreadable (List (Name × Spot)) :=
  match fs.openDirectory spot.path with
  | .error fault => .error ⟨spot.path, fault⟩
  | .ok loc => .ok <| (sortNames (fs.names loc)).map fun name =>
      (name, listed fs (childPath spot.path name) (fs.node? (name :: loc)))

/-- Everything below a directory, each directory before what it holds. -/
def descendants (fs : FileSystem) : Nat → Spot → List (Except Unreadable (Name × Spot))
  | 0, _ => []
  | depth + 1, spot =>
    if spot.isDirectory then
      match children fs spot with
      | .error unreadable => [.error unreadable]
      | .ok children => children.flatMap fun child => .ok child :: descendants fs depth child.2
    else []

end Spot

/-- A name that is text and matches the component. -/
def nameFits (segment : Segment) (name : Name) : Bool :=
  match Utf8.text? name with
  | some text => segment.accepts text.toList
  | none => false

/-- The names `..` and `.`, for a pattern that asks for a dot first and matches them. -/
def dotNames (segment : Segment) : List Name :=
  if segment.startsWithDot then
    [[Path.dot, Path.dot], [Path.dot]].filter (nameFits segment)
  else []

/-- The name is there, or is a directory's name for itself or its parent. -/
def isThere (fs : FileSystem) (spot : Spot) (name : List Char) (path : Path) : Bool :=
  if name = ['.'] ∨ name = ['.', '.'] then spot.isDirectory else fs.isPresent path

/-! ## The walk -/

/-- What components select from below a path, in the order of the walk. -/
def walk (fs : FileSystem) (directoriesOnly : Bool) :
    List Segment → Spot → List (Except Unreadable Path)
  | [], spot => if directoriesOnly && !spot.isDirectory then [] else [.ok spot.path]
  | .literal name :: rest, spot =>
    let path := childPath spot.path (Utf8.encode (String.ofList name))
    if isThere fs spot name path then walk fs directoriesOnly rest (.lookUp fs path) else []
  | .wild tokens :: rest, spot =>
    if spot.isDirectory then
      match spot.children fs with
      | .error unreadable => [.error unreadable]
      | .ok children =>
        -- listings leave out `.` and `..`, which a pattern may ask for
        (dotNames (.wild tokens)).flatMap (fun name =>
            walk fs directoriesOnly rest (.lookUp fs (spot.path / (⟨name⟩ : Path))))
          ++ children.flatMap fun child =>
            if nameFits (.wild tokens) child.1 then walk fs directoriesOnly rest child.2 else []
    else []
  -- a path that is too long cannot be listed, which bounds the depth
  | [.tree], spot =>
    (spot.descendants fs FileSystem.maxPath).filterMap fun
      | .error unreadable => some (.error unreadable)
      | .ok node => if node.2.isDirectory then some (.ok node.2.path) else none
  | .tree :: segment :: rest, spot =>
    (spot.descendants fs FileSystem.maxPath).flatMap fun
      | .error unreadable => [.error unreadable]
      | .ok node => if nameFits segment node.1 then walk fs directoriesOnly rest node.2 else []

/-- What a pattern selects, in the order of the walk. -/
def Search.run (fs : FileSystem) (s : Search) : List (Except Unreadable Path) :=
  walk fs s.directoriesOnly s.segments (.lookUp fs s.start)

end BootSigning.Glob
