import BootSigning.Lexicographic
import BootSigning.Text.Utf8

/-!
# Paths

A path is a byte string in which `/` separates names, as the file system sees it.

* `Path`, `Path.text`: the bytes, and the text shown to people
* `Path.join`: a path seen from a directory
* `Component`, `Path.components`: what a path says, without repeated slashes and idle dots
* `Path.fileName?`: the last component, if it is a name
* `Path.le`: the order of listings, component by component
-/

namespace BootSigning

abbrev Name := List UInt8

/-- Names in the order of their bytes. -/
def Name.le (a b : Name) : Bool := lexLe Nat.ble (a.map UInt8.toNat) (b.map UInt8.toNat)

/-- A path as the file system takes it: any bytes. -/
structure Path where
  bytes : List UInt8
  deriving DecidableEq, Repr, Inhabited

namespace Path

def slash : UInt8 := 0x2F

def dot : UInt8 := 0x2E

/-! ## Text -/

def ofString (s : String) : Path := ⟨Utf8.encode s⟩

instance : Coe String Path := ⟨ofString⟩

/-- The path as shown: what is not UTF-8 in it shows as U+FFFD. -/
def text (p : Path) : String := Utf8.lossy p.bytes

def isText (p : Path) : Bool := (Utf8.text? p.bytes).isSome

instance : ToString Path := ⟨text⟩

/-! ## Building -/

def isAbsolute (p : Path) : Bool := p.bytes.head? == some slash

/-- `child` seen from the directory `base`; an absolute child stays as it is. -/
def join (base child : Path) : Path :=
  if child.isAbsolute then child
  else if base.bytes.isEmpty || base.bytes.getLast? == some slash then ⟨base.bytes ++ child.bytes⟩
  else ⟨base.bytes ++ slash :: child.bytes⟩

instance : HDiv Path Path Path := ⟨join⟩

/-! ## Components -/

/-- The bytes between slashes; repeated slashes leave empty pieces. -/
def pieces (p : Path) : List Name := p.bytes.splitOn slash

/-- A step that a path spells out. -/
inductive Component where
  /-- The root directory. -/
  | root
  /-- A dot that starts a relative path. -/
  | here
  /-- Two dots. -/
  | up
  /-- A name. -/
  | named (name : Name)
  deriving DecidableEq, Repr

/-- A piece of a path as a component; empty pieces and single dots say nothing. -/
def component? (piece : Name) : Option Component :=
  if piece = [] ∨ piece = [dot] then none
  else if piece = [dot, dot] then some .up
  else some (.named piece)

/-- What a path says, step by step. -/
def components (p : Path) : List Component :=
  let steps := p.pieces.filterMap component?
  if p.isAbsolute then .root :: steps
  else if p.pieces.head? = some [dot] then .here :: steps
  else steps

/-- The last component, if it is a name. -/
def fileName? (p : Path) : Option Name :=
  match p.components.getLast? with
  | some (.named name) => some name
  | _ => none

/-! ## Order -/

/-- A component as numbers: its kind, then the bytes of its name. -/
def Component.key : Component → List Nat
  | .root => [0]
  | .here => [1]
  | .up => [2]
  | .named name => 3 :: name.map UInt8.toNat

/-- The order key of a path. -/
def key (p : Path) : List (List Nat) := p.components.map Component.key

/-- The order of listings: component by component, names byte by byte. -/
def le (p q : Path) : Bool := lexLe (lexLe Nat.ble) p.key q.key

end Path

end BootSigning
