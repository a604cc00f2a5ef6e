import BootSigning.FileSystem.Edit
import BootSigning.Process.Output
import BootSigning.Shell.Grammar

/-!
# The state of a shell

* `Channel`: where output goes
* `State`: what a shell knows and has done
* `Run`: an operation of a shell, which may end it
* `Launcher`: what starts the programs that a shell calls
-/

namespace BootSigning.Shell

def ofBytes (bytes : List UInt8) : List Char := bytes.map fun b => Char.ofNat b.toNat

def toBytes (cs : List Char) : List UInt8 := cs.map fun c => c.toNat.toUInt8

inductive Channel where
  /-- A buffer of the shell, by number. -/
  | buffer (number : Nat)
  | file (place : Location)
  | closed
  deriving DecidableEq, Repr

abbrev Variables := List (String × List Char)

structure State where
  files : FileSystem
  /-- The name the shell goes by. -/
  name : List Char
  arguments : List (List Char)
  bindings : Variables
  /-- The exit code of the last command. -/
  status : Nat
  /-- What is left to read. -/
  input : List UInt8
  output : Channel
  errors : Channel
  /-- What was written to each buffer. -/
  buffers : List (List UInt8)

/-- An operation of a shell; it may end the shell with a status. -/
abbrev Run := ExceptT WaitStatus (StateM State)

/-- What starts programs: by name, with arguments, input and variables. -/
abbrev Launcher :=
  List UInt8 → List (List UInt8) → List UInt8 → Variables → FileSystem →
    Except Errno (Output × FileSystem)

def State.write (s : State) (channel : Channel) (bytes : List UInt8) : State :=
  match channel with
  | .buffer number => { s with buffers := s.buffers.modify number (· ++ bytes) }
  | .file place =>
    match s.files.node? place with
    | some (.file mode old) => { s with files := s.files.insert place (.file mode (old ++ bytes)) }
    | _ => s
  | .closed => s

def put (cs : List Char) : Run Unit := modify fun s => s.write s.output (toBytes cs)

def putError (cs : List Char) : Run Unit := modify fun s => s.write s.errors (toBytes cs)

/-- Reports a fault in a line of the script. -/
def report (line : Nat) (message : List Char) : Run Unit := do
  putError ((← get).name ++ s!": {line}: ".toList ++ message ++ ['\n'])

def exitWith (code : Nat) : Run Unit := throw (.exited code.toUInt8)

def State.value? (s : State) (name : String) : Option (List Char) := s.bindings.lookup name

def State.assign (s : State) (name : String) (value : List Char) : State :=
  { s with bindings := (name, value) :: s.bindings.filter (·.1 != name) }

/--
Runs an operation and undoes what it changes besides files and output. An exit in it ends only the
operation; a signal ends the shell.
-/
def apart (body : Run Nat) : Run Nat := do
  let before ← get
  let (result, after) := body.run.run before
  set { before with
    files := { after.files with cwd := before.files.cwd }, buffers := after.buffers }
  match result with
  | .ok code => return code
  | .error ended =>
    match ended.code? with
    | some code => return code
    | none => throw ended

end BootSigning.Shell
