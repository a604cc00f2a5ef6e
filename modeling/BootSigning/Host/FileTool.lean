import BootSigning.FileSystem.Edit
import BootSigning.Process.Output

/-!
# Programs that change files

* `FileTool`: the programs
* `FileTool.apply`: what a program does with one or two paths
* `FileTool.execute`: a program with its arguments
-/

namespace BootSigning

inductive FileTool where
  | makeDirectory
  | link
  | setMode
  | copy
  | remove
  deriving DecidableEq, Repr

namespace FileTool

def name : FileTool → String
  | .makeDirectory => "mkdir"
  | .link => "ln"
  | .setMode => "chmod"
  | .copy => "cp"
  | .remove => "rm"

def all : List FileTool := [.makeDirectory, .link, .setMode, .copy, .remove]

def complaint : FileTool → String
  | .makeDirectory => "cannot create directory"
  | .link => "failed to create link"
  | .setMode => "cannot change mode of"
  | .copy => "cannot copy to"
  | .remove => "cannot remove"

def dash : UInt8 := 0x2D

def isOption (argument : List UInt8) : Bool := argument.head? == some dash && argument != [dash]

def has (options : List (List UInt8)) (letter : Char) : Bool :=
  options.any fun option => option[1]? != some dash && option.contains letter.toNat.toUInt8

def octal (digits : List UInt8) : Nat := digits.foldl (fun n b => n * 8 + (b.toNat - 0x30)) 0

/-- Where a copy goes: into a directory under the name of its source. -/
def destination (fs : FileSystem) (source target : Path) : Path :=
  match fs.isDirectory target, source.fileName? with
  | true, some name => target / (⟨name⟩ : Path)
  | _, _ => target

def removeAt (fs : FileSystem) (options : List (List UInt8)) (p : Path) : FileSystem.Change :=
  match fs.resolve .itself p with
  | .error fault => ⟨fs, if has options 'f' then none else some fault⟩
  | .ok loc =>
    if fs.node? loc = some .directory && !has options 'r' then ⟨fs, some (.os .isDirectory)⟩
    else fs.remove p

/-- What a program does with a path, and with the operand in front of all paths if it needs one. -/
def apply (tool : FileTool) (options : List (List UInt8)) (first : List UInt8) (p : Path)
    (fs : FileSystem) : FileSystem.Change :=
  match tool with
  | .makeDirectory =>
    .ofResult fs (if has options 'p' then fs.makeDirectories p else fs.makeDirectory p)
  | .link =>
    .ofResult fs (if has options 's' then fs.link p ⟨first⟩ else .error (.os .notPermitted))
  | .setMode => .ofResult fs (fs.setMode p (octal first))
  | .copy => .ofResult fs do fs.write (destination fs ⟨first⟩ p) (← fs.read ⟨first⟩)
  | .remove => removeAt fs options p

/-- The program takes an operand in front of all paths. -/
def takesOperand : FileTool → Bool
  | .makeDirectory | .remove => false
  | _ => true

/-- A program with its arguments. A path that fails is reported, and the others are gone through. -/
def execute (tool : FileTool) (arguments : List (List UInt8)) (fs : FileSystem) :
    Output × FileSystem :=
  let options := arguments.filter isOption
  let operands := arguments.filter (!isOption ·)
  let paths := if tool.takesOperand then operands.drop 1 else operands
  let (errors, fs) := paths.foldl
    (fun (acc : String × FileSystem) path =>
      let change := tool.apply options (operands.headD []) ⟨path⟩ acc.2
      match change.fault with
      | none => (acc.1, change.files)
      | some fault =>
        let p : Path := ⟨path⟩
        (acc.1 ++ s!"{tool.name}: {tool.complaint} '{p}': {fault.text}\n", change.files))
    ("", fs)
  (⟨.exited (if errors.isEmpty then 0 else 1), [], Utf8.encode errors⟩, fs)

end FileTool

end BootSigning
