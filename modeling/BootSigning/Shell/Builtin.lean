import BootSigning.Shell.Expansion
import BootSigning.Shell.Printing

/-!
# Commands of the shell itself

* `Condition.holds?`: what `test` finds out
* `kill`: what a signal does to the shell
* `builtin?`: the command of a name, if the shell has one
-/

namespace BootSigning.Shell

/-! ## Conditions -/

namespace Condition

def pathOf (cs : List Char) : Path := ⟨toBytes cs⟩

def hasContent (fs : FileSystem) (p : Path) : Bool :=
  match fs.read p with
  | .ok content => !content.isEmpty
  | .error _ => false

def unary? (fs : FileSystem) (operator : String) (operand : List Char) : Option Bool :=
  let p := pathOf operand
  match operator with
  | "-n" => some !operand.isEmpty
  | "-z" => some operand.isEmpty
  | "-f" => some (fs.isFile p)
  | "-d" => some (fs.isDirectory p)
  | "-e" | "-r" | "-w" => some (fs.stat p).toBool
  | "-s" => some (hasContent fs p)
  | "-x" => some (fs.isExecutable p || fs.isDirectory p)
  | "-h" | "-L" =>
    some (match fs.resolve .itself p with
      | .ok loc => match fs.node? loc with
        | some (.symlink _) => true
        | _ => false
      | .error _ => false)
  | _ => none

def binary? (left : List Char) (operator : String) (right : List Char) : Option Bool :=
  let compare (holds : Int → Int → Bool) : Option Bool := do
    return holds (← Printing.integer? left) (← Printing.integer? right)
  match operator with
  | "=" => some (left == right)
  | "!=" => some (left != right)
  | "-eq" => compare (· == ·)
  | "-ne" => compare (· != ·)
  | "-lt" => compare (· < ·)
  | "-le" => compare (· ≤ ·)
  | "-gt" => compare (· > ·)
  | "-ge" => compare (· ≥ ·)
  | _ => none

/-- What a condition says; none if it is malformed. -/
def holds? (fs : FileSystem) : List (List Char) → Option Bool
  | [] => some false
  | [single] => some !single.isEmpty
  | [operator, operand] =>
    if operator = ['!'] then some operand.isEmpty
    else unary? fs (String.ofList operator) operand
  | [left, operator, right] =>
    -- with three words the one in the middle decides, and only then the first
    match binary? left (String.ofList operator) right with
    | some verdict => some verdict
    | none => if left = ['!'] then (holds? fs [operator, right]).map (!·) else none
  | left :: rest => if left = ['!'] then (holds? fs rest).map (!·) else none

def code (fs : FileSystem) (arguments : List (List Char)) : Nat :=
  match holds? fs arguments with
  | some true => 0
  | some false => 1
  | none => 2

end Condition

/-! ## Signals -/

/-- The signals that do nothing unless a program asks for them. -/
def quietSignals : List Nat := [0, 17, 18, 23, 28]

/-- The number of a signal, given by number or name. -/
def signal? (cs : List Char) : Option Nat :=
  let name := String.ofList cs
  match name.toNat? with
  | some n => some n
  | none =>
    ((signalNames.zipIdx 1).find? fun entry => entry.1 == name || entry.1 == "SIG" ++ name).map
      Prod.snd

def kill (arguments : List (List Char)) : Run Nat := do
  let (signal, processes) : Option Nat × List (List Char) :=
    match arguments with
    | ['-', 's'] :: name :: rest => (signal? name, rest)
    | ('-' :: name) :: rest => (signal? name, rest)
    | rest => (some 15, rest)
  match signal with
  | none => return 1
  | some n =>
    -- no process but the shell itself is there to get it
    if processes.contains (toString ownProcess).toList then
      if !quietSignals.contains n then throw (.signaled n.toUInt32 false)
      return 0
    else return 1

/-! ## Other commands -/

def changeDirectory (line : Nat) (arguments : List (List Char)) : Run Nat := do
  let s ← get
  let target := arguments.headD (s.parameter "HOME")
  match s.files.resolve .target (Condition.pathOf target) with
  | .ok loc =>
    if s.files.node? loc = some .directory then
      set { s with files := { s.files with cwd := loc } }
      return 0
    else
      report line ("cd: can't cd to ".toList ++ target)
      return 2
  | .error _ =>
    report line ("cd: can't cd to ".toList ++ target)
    return 2

/-- Ends the shell with a code, or with the code of the last command. -/
def leave (line : Nat) : List (List Char) → Run Nat
  | [] => do
    let code := (← get).status
    exitWith code
    return code
  | cs :: _ => do
    match Printing.integer? cs with
    | some (.ofNat code) => exitWith code
    | _ =>
      report line ("exit: Illegal number: ".toList ++ cs)
      exitWith 2
    return 2

def exportAll (arguments : List (List Char)) : Run Nat := do
  arguments.forM fun argument =>
    match argument.dropWhile (· != '=') with
    | _ :: value =>
      modify fun s => s.assign (String.ofList (argument.takeWhile (· != '='))) value
    | [] => pure ()
  return 0

/-- The command of a name, if the shell has one. -/
def builtin? (name : String) (line : Nat) (arguments : List (List Char)) : Option (Run Nat) :=
  match name with
  | ":" | "true" => some (return 0)
  | "false" => some (return 1)
  | "echo" => some do
    put (Printing.echo arguments)
    return 0
  | "printf" => some do
    put (Printing.printf (arguments.headD []) (arguments.drop 1))
    return 0
  | "pwd" => some do
    put (ofBytes (FileSystem.pathOf (← get).files.cwd).bytes ++ ['\n'])
    return 0
  | "test" => some do return Condition.code (← get).files arguments
  | "[" => some do return Condition.code (← get).files arguments.dropLast
  | "cd" => some (changeDirectory line arguments)
  | "exit" => some (leave line arguments)
  | "export" => some (exportAll arguments)
  | "kill" => some (kill arguments)
  | "shift" => some do
    let count := ((arguments.head?.bind Printing.integer?).getD 1).toNat
    modify fun s => { s with arguments := s.arguments.drop count }
    return 0
  | _ => none

end BootSigning.Shell
