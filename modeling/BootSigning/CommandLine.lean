import BootSigning.Log
import BootSigning.Session

/-!
# The command line

`TARGET_DIR KEY_DIR EFI_GLOB`, with `-v`/`--verbose` (repeatable), `-q`/`--quiet`, `-h`/`--help`
and `-V`/`--version`. After `--` everything is an argument.

* `Arguments`: what a command line says
* `UsageFault`: why it says nothing, or asks for a text instead
* `CommandLine.parse`: the reading of a command line
* `Arguments.level`: how much is logged
-/

namespace BootSigning

structure Arguments where
  targetDir : String
  keyDir : String
  bootloaders : String
  /-- How often more was asked for, at most 255 times. -/
  verbosity : Nat
  quiet : Bool
  deriving DecidableEq, Repr

/-- Why a command line starts no run. -/
inductive UsageFault where
  /-- The help text was asked for. -/
  | help
  /-- The version was asked for. -/
  | version
  | missingArgument
  | unknownArgument
  /-- Two arguments exclude each other. -/
  | conflict
  /-- A flag was given a value. -/
  | valueForFlag
  /-- An argument is not UTF-8. -/
  | notText
  deriving DecidableEq, Repr

/-- The exit code; asking for a text is no failure. -/
def UsageFault.exitCode : UsageFault → Nat
  | .help | .version => 0
  | _ => 2

namespace CommandLine

inductive Flag where
  | verbose
  | quiet
  | help
  | version
  deriving DecidableEq, Repr

def Flag.ofLetter? : Char → Option Flag
  | 'v' => some .verbose
  | 'q' => some .quiet
  | 'h' => some .help
  | 'V' => some .version
  | _ => none

def Flag.ofWord? (word : List UInt8) : Option Flag :=
  if word = Utf8.encode "verbose" then some .verbose
  else if word = Utf8.encode "quiet" then some .quiet
  else if word = Utf8.encode "help" then some .help
  else if word = Utf8.encode "version" then some .version
  else none

structure Reading where
  /-- The arguments that are known to be text. -/
  settled : List String
  /-- The last argument, which is looked at when the next item is taken up. -/
  pending : Option (List UInt8)
  verbosity : Nat
  quiet : Bool
  /-- Flags have ended. -/
  ended : Bool
  deriving DecidableEq, Repr

namespace Reading

def start : Reading := ⟨[], none, 0, false, false⟩

/-- Settles the last argument. -/
def settle (r : Reading) : Except UsageFault Reading :=
  match r.pending with
  | none => .ok r
  | some bytes =>
    match Utf8.text? bytes with
    | some text => .ok { r with settled := r.settled ++ [text], pending := none }
    | none => .error .notText

def count (r : Reading) : Nat := r.settled.length + r.pending.toList.length

def argument (r : Reading) (bytes : List UInt8) : Except UsageFault Reading :=
  if 3 ≤ r.count then .error .unknownArgument
  else do return { ← r.settle with pending := some bytes }

def flag (r : Reading) (f : Flag) : Except UsageFault Reading := do
  let r ← r.settle
  match f with
  | .verbose => return { r with verbosity := min 255 (r.verbosity + 1) }
  | .quiet => if r.quiet then throw .conflict else return { r with quiet := true }
  | .help => throw .help
  | .version => throw .version

/-- Takes up the letters of a short item. -/
def letters (r : Reading) : List Utf8.Piece → Except UsageFault Reading
  | [] => .ok r
  | .broken _ :: _ => .error .unknownArgument
  | .char c :: rest =>
    match Flag.ofLetter? c with
    | some f => do letters (← r.flag f) rest
    | none => .error .unknownArgument

/-- Takes up a long item, without its two dashes. -/
def word (r : Reading) (bytes : List UInt8) : Except UsageFault Reading :=
  let name := bytes.takeWhile (· != 0x3D)
  match Flag.ofWord? name with
  | none => .error .unknownArgument
  | some f => if name.length < bytes.length then .error .valueForFlag else r.flag f

def item (r : Reading) (bytes : List UInt8) : Except UsageFault Reading :=
  if r.ended then r.argument bytes
  else match bytes with
    | [0x2D, 0x2D] => .ok { r with ended := true }
    | 0x2D :: 0x2D :: rest => r.word rest
    | 0x2D :: c :: rest => r.letters (Utf8.decode (c :: rest))
    | _ => r.argument bytes

def finish (r : Reading) : Except UsageFault Arguments := do
  let r ← r.settle
  if r.quiet && 0 < r.verbosity then throw .conflict
  match r.settled with
  | [targetDir, keyDir, bootloaders] =>
    return ⟨targetDir, keyDir, bootloaders, r.verbosity, r.quiet⟩
  | _ => throw .missingArgument

end Reading

/-- What the items of a command line say, the program's name left out. -/
def parse (items : List (List UInt8)) : Except UsageFault Arguments := do
  (← items.foldlM Reading.item Reading.start).finish

end CommandLine

/-- The least grave level that is logged. -/
def levelFor (verbosity : Nat) (quiet : Bool) : Level :=
  if quiet then .warn
  else match verbosity with
    | 0 => .info
    | 1 => .debug
    | _ => .trace

namespace Arguments

/-- The least grave level that is logged. -/
def level (a : Arguments) : Level := levelFor a.verbosity a.quiet

def request (a : Arguments) : SignRequest := ⟨a.targetDir, a.keyDir, a.bootloaders⟩

end Arguments

end BootSigning
