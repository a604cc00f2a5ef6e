import BootSigning.Shell.Builtin
import BootSigning.Shell.Reader

/-!
# Running shell scripts

* `runSimple`: a simple command
* `run`: a phrase
* `Shell.execute`: the shell as a program
-/

namespace BootSigning.Shell

/-! ## Redirections -/

/-- What a shell says if a file cannot be opened. -/
def openFault (create : Bool) (target : List Char) (fault : Fault) : List Char :=
  let verb := if create then "cannot create " else "cannot open "
  let reason :=
    match fault with
    | .os errno =>
      if errno = Errno.noEntry then (if create then "Directory nonexistent" else "No such file")
      else errno.text
    | other => other.text
  verb.toList ++ target ++ ": ".toList ++ reason.toList

/-- Opens a file to be written, and finds its place. -/
def openFile (fs : FileSystem) (p : Path) (keep : Bool) : Except Fault (FileSystem × Channel) := do
  let fs ← if keep then fs.append p [] else fs.write p []
  return (fs, .file (← fs.resolve .target p))

def State.channel (s : State) : Nat → Channel
  | 1 => s.output
  | 2 => s.errors
  | _ => .closed

def State.connect (s : State) (number : Nat) (channel : Channel) : State :=
  match number with
  | 1 => { s with output := channel }
  | 2 => { s with errors := channel }
  | _ => s

/-- Carries out a redirection, and tells whether it could be done. -/
def redirect (r : Redirection) : Run Bool := do
  let s ← get
  let target := expandText s r.target
  let path := Condition.pathOf target
  match r.connection with
  | .read =>
    match s.files.read path with
    | .ok content =>
      set { s with input := content }
      return true
    | .error fault =>
      report r.line (openFault false target fault)
      return false
  | .duplicate =>
    -- what is no number connects to nothing
    let channel := s.channel ((String.ofList target).toNat?.getD 0)
    set (s.connect r.channel channel)
    return true
  | kind =>
    match openFile s.files path (kind == .append) with
    | .ok (fs, channel) =>
      set ({ s with files := fs }.connect r.channel channel)
      return true
    | .error fault =>
      report r.line (openFault true target fault)
      return false

def redirectAll : List Redirection → Run Bool
  | [] => return true
  | r :: rest => do
    if ← redirect r then redirectAll rest else return false

/-- Runs a body with redirections, and undoes these afterwards. -/
def withRedirections (rs : List Redirection) (body : Run Nat) : Run Nat := do
  let before ← get
  -- where a redirection cannot be done, the body is not run at all
  let code ← if ← redirectAll rs then body else pure 2
  modify fun s => { s with input := before.input, output := before.output, errors := before.errors }
  return code

/-! ## Simple commands -/

/-- The exit code that a shell gives for a status. -/
def codeOf (status : WaitStatus) : Nat :=
  match status.code? with
  | some code => code
  | none => 128 + status.kindBits

def callProgram (launch : Launcher) (line : Nat) (name : List Char)
    (arguments : List (List Char)) : Run Nat := do
  let s ← get
  match launch (toBytes name) (arguments.map toBytes) s.input s.bindings s.files with
  | .error errno =>
    if errno = .noEntry then
      report line (name ++ ": not found".toList)
      return 127
    else
      report line (name ++ ": ".toList ++ errno.text.toList)
      return 126
  | .ok (output, fs) =>
    -- a program changes files, but never the directory that the shell is in
    let s := { s with files := { fs with cwd := s.files.cwd } }
    set ((s.write s.output output.stdout).write s.errors output.stderr)
    return codeOf output.status

def assignAll (assignments : List Assignment) : Run Unit :=
  assignments.forM fun a => modify fun s => s.assign a.name (expandText s a.value)

/-- Runs a command by its name; `exec` gives the shell's place to a program. -/
def callNamed (launch : Launcher) (line : Nat) : List (List Char) → Run Nat
  | [] => return 0
  | name :: arguments => do
    match String.ofList name, arguments with
    | "exec", program :: rest =>
      let code ← callProgram launch line program rest
      exitWith code
      return code
    | text, _ => (builtin? text line arguments).getD (callProgram launch line name arguments)

/-- Runs a simple command. -/
def runSimple (launch : Launcher) (p : SimplePhrase) : Run Nat := do
  let s ← get
  let fields := p.words.flatMap (expandFields s)
  if fields.isEmpty then
    assignAll p.assignments
    withRedirections p.redirections (return 0)
  else
    withRedirections p.redirections do
      let before := (← get).bindings
      assignAll p.assignments
      let code ← callNamed launch p.line fields
      -- variables set in front of a command are its own
      if !p.assignments.isEmpty then modify fun s => { s with bindings := before }
      return code

/-! ## Phrases -/

/-- The most rounds that a loop makes before the shell is stopped. -/
def maxRounds : Nat := 100000

def rounds (whileSuccess : Bool) (condition body : Run Nat) : Nat → Nat → Run Nat
  | 0, _ => throw (.signaled 9 false)
  | left + 1, code => do
    if ((← condition) == 0) == whileSuccess then rounds whileSuccess condition body left (← body)
    else return code

/-- Runs one after the other, the second reading what the first writes. -/
def feed (first second : Run Nat) : Run Nat := do
  let s ← get
  -- a new buffer between the two, gone once the first has written it
  let number := s.buffers.length
  set { s with buffers := s.buffers ++ [[]], output := .buffer number }
  let _ ← apart first
  let written := (← get).buffers[number]?.getD []
  modify fun t => { t with buffers := t.buffers.take number, output := s.output }
  apart do
    modify fun t => { t with input := written }
    second

def settle (command : Run Nat) : Run Nat := do
  let code ← command
  modify fun s => { s with status := code }
  return code

def runPhrase (launch : Launcher) : Phrase → Run Nat
  | .nothing => settle (return 0)
  | .simple p => settle (runSimple launch p)
  | .sequence first .nothing => runPhrase launch first
  | .sequence first second => do
    let _ ← runPhrase launch first
    runPhrase launch second
  | .both first second => do
    let code ← runPhrase launch first
    if code = 0 then runPhrase launch second else return code
  | .either first second => do
    let code ← runPhrase launch first
    if code = 0 then return code else runPhrase launch second
  | .negated phrase => settle do
    return if (← runPhrase launch phrase) = 0 then 1 else 0
  | .piped first second => settle (feed (runPhrase launch first) (runPhrase launch second))
  | .branch condition yes no => do
    if (← runPhrase launch condition) = 0 then runPhrase launch yes else runPhrase launch no
  | .repeated whileSuccess condition body =>
    settle (rounds whileSuccess (runPhrase launch condition) (runPhrase launch body) maxRounds 0)
  | .forEach name words body => settle do
    let values := words.flatMap (expandFields (← get))
    values.foldlM (fun _ value => do
      modify fun s => s.assign name value
      runPhrase launch body) 0
  | .choice subject patterns body otherwise => do
    let s ← get
    let text := expandText s subject
    if patterns.any fun p => Wildcard.fits (expandPattern s p) text then runPhrase launch body
    else runPhrase launch otherwise
  | .group body isApart rs =>
    settle (withRedirections rs
      (if isApart then apart (runPhrase launch body) else runPhrase launch body))

def runScript (launch : Launcher) (script : Script) : Run Nat := do
  let code ← script.phrases.foldlM (fun _ phrase => runPhrase launch phrase) 0
  match script.fault with
  | none => return code
  -- the lines before the fault have been run by then
  | some fault =>
    report fault.line fault.message.toList
    exitWith 2
    return 2

/-! ## The program -/

/-- What a shell is to run, and under which name. -/
structure Start where
  name : List Char
  arguments : List (List Char)
  text : List Char
  deriving DecidableEq, Repr

/-- The option letters at the front of the arguments, and the other arguments. -/
def options : List (List Char) → List Char × List (List Char)
  | ('-' :: c :: letters) :: rest =>
    if c = '-' then ([], rest)
    else
      let (more, rest) := options rest
      (c :: letters ++ more, rest)
  | rest => ([], rest)

/-- What the arguments ask a shell to run, or why it cannot be run. -/
def start (fs : FileSystem) (own : List Char) (arguments : List (List Char)) (input : List UInt8) :
    Except (List Char) Start :=
  let (letters, rest) := options arguments
  match letters.contains 'c', rest with
  | true, [] => .error (own ++ ": 0: -c requires an argument\n".toList)
  | true, [text] => .ok ⟨own, [], text⟩
  | true, text :: name :: rest => .ok ⟨name, rest, text⟩
  | false, [] => .ok ⟨own, [], ofBytes input⟩
  | false, file :: rest =>
    match fs.read (Condition.pathOf file) with
    | .ok content => .ok ⟨file, rest, ofBytes content⟩
    | .error fault =>
      .error (own ++ ": 0: ".toList ++ openFault false file fault ++ ['\n'])

/-- The shell as a program. The first argument is the name it was called by. -/
def execute (launch : Launcher) (arguments : List (List UInt8)) (input : List UInt8)
    (bindings : Variables) (fs : FileSystem) : Output × FileSystem :=
  let arguments := arguments.map ofBytes
  match start fs (arguments.headD []) (arguments.drop 1) input with
  | .error message => (⟨.exited 2, [], toBytes message⟩, fs)
  | .ok start =>
    let state : State :=
      ⟨fs, start.name, start.arguments, bindings, 0, input, .buffer 0, .buffer 1, [[], []]⟩
    let (result, state) := (runScript launch (Script.read start.text)).run.run state
    let status : WaitStatus :=
      match result with
      | .ok code => .exited code.toUInt8
      | .error status => status
    (⟨status, state.buffers[0]?.getD [], state.buffers[1]?.getD []⟩, state.files)

end BootSigning.Shell
