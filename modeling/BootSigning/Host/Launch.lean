import BootSigning.Host.Program
import BootSigning.Process.Environment
import BootSigning.Process.Executor

/-!
# Starting programs

How a name leads to a program, and the executor that starts real programs.

* `Host.startFile`: the program in a file, or the interpreter that the file names
* `Host.find`: the first directory of the search path whose file can be started
* `Host.launcher`: both together
* `Host.executor`: the executor of a process
-/

namespace BootSigning.Host

open Shell (Launcher Variables)

/-- What a program is given when it starts; the first argument is the name it was called by. -/
structure Setting where
  arguments : List (List UInt8)
  input : List UInt8
  bindings : Variables
  files : FileSystem

/-- A started program's end and what it left of the files, or why none was started. -/
abbrev Started := Except Errno (Output × FileSystem)

/-! ## Files -/

/-- The two bytes in front of the name of an interpreter. -/
def interpreterMark : List UInt8 := [0x23, 0x21]

def isGap (b : UInt8) : Bool := b == 0x20 || b == 0x09

def trimGaps (bytes : List UInt8) : List UInt8 :=
  ((bytes.dropWhile isGap).reverse.dropWhile isGap).reverse

/-- The interpreter that the first line of a file names, with its argument if there is one. -/
def interpreter? (content : List UInt8) : Option (List UInt8 × List (List UInt8)) :=
  if interpreterMark.isPrefixOf content then
    let line := trimGaps ((content.drop interpreterMark.length).takeWhile (· != 0x0A))
    let argument := trimGaps (line.dropWhile (!isGap ·))
    some (line.takeWhile (!isGap ·), if argument.isEmpty then [] else [argument])
  else none

/-- The content of a file that may be started. -/
def startable (fs : FileSystem) (p : Path) : Except Errno (List UInt8) :=
  match fs.stat p with
  | .ok (.file _ content) => if fs.isExecutable p then .ok content else .error .accessDenied
  | .ok _ => .error .accessDenied
  | .error (.os errno) => .error errno
  | .error _ => .error .noEntry

/-- The program in a file. The number bounds how many interpreters lead to each other. -/
def startFile (launch : Launcher) : Nat → Path → Setting → Started
  | depth, p, setting =>
    match startable setting.files p with
    | .error errno => .error errno
    | .ok content =>
      match HostProgram.ofImage? content, interpreter? content, depth with
      | some program, _, _ =>
        .ok (program.execute launch setting.arguments setting.input setting.bindings setting.files)
      | none, none, _ => .error .badFormat
      | none, some _, 0 => .error .tooManyLinks
      | none, some (interpreter, extra), depth + 1 =>
        if interpreter.isEmpty then .error .badFormat
        else startFile launch depth ⟨interpreter⟩
          { setting with
            arguments := interpreter :: extra ++ p.bytes :: setting.arguments.drop 1 }

def maxInterpreters : Nat := 4

/-! ## Names -/

/-- The faults after which the next directory is tried. -/
def goesOn (errno : Errno) : Bool :=
  errno = .noEntry || errno = .notDirectory || errno = .accessDenied

/-- The file of a name in a directory of the search path. -/
def fileIn (dir : Path) (name : List UInt8) : Path :=
  if dir.bytes.isEmpty then ⟨name⟩ else ⟨dir.bytes ++ Path.slash :: name⟩

/--
The program of the first file that can be started. A file that may not be started is passed over,
but reported if nothing else is found.
-/
def find (start : Path → Started) (name : List UInt8) : Errno → List Path → Started
  | failure, [] => .error failure
  | failure, dir :: rest =>
    match start (fileIn dir name) with
    | .ok started => .ok started
    | .error errno =>
      if goesOn errno then
        find start name (if errno = .accessDenied then errno else failure) rest
      else .error errno

def searchPathOf (bindings : Variables) : List Path :=
  Environment.splitSearchPath (Shell.toBytes ((bindings.lookup "PATH").getD []))

/-- Starts programs. The number bounds how deep programs start each other. -/
def launcher : Nat → Launcher
  | 0 => fun _ _ _ _ _ => .error .tryAgain
  | depth + 1 => fun name arguments input bindings fs =>
    let start (p : Path) : Started :=
      startFile (launcher depth) maxInterpreters p ⟨name :: arguments, input, bindings, fs⟩
    if name.isEmpty then .error .noEntry
    else if name.contains Path.slash then start ⟨name⟩
    else find start name .noEntry (searchPathOf bindings)

def maxDepth : Nat := 64

/-! ## The executor -/

def variablesOf (environment : Environment) (temporary : Path) : Variables :=
  [("PATH", Shell.ofBytes environment.searchPath), ("HOME", Shell.ofBytes environment.home.bytes),
    ("TMPDIR", Shell.ofBytes temporary.bytes)]

/-- A text with a zero byte cannot be passed to a program. -/
def hasZero (text : String) : Bool := text.toList.contains '\x00'

/-- Starts the program of a call and waits for it. -/
def answer (bindings : Variables) (call : Invocation) (fs : FileSystem) : Reply × FileSystem :=
  if (call.program :: call.arguments).any hasZero then (.notStarted (.io .zeroInCommand), fs)
  else
    match launcher maxDepth (Utf8.encode call.program) (call.arguments.map Utf8.encode) []
        bindings fs with
    | .ok (output, after) => (.finished output, { after with cwd := fs.cwd })
    | .error errno => (.notStarted (.io (.os errno)), fs)

/-- The executor of a process: it starts the programs that are called. -/
def executor (bindings : Variables) : Executor Unit where
  announce call :=
    [⟨.trace, .exec, s!"running {call.program} " ++ " ".intercalate call.arguments⟩]
  answer call _ fs :=
    let (reply, fs) := Host.answer bindings call fs
    (reply, (), fs)

end BootSigning.Host
