import BootSigning.CommandLine
import BootSigning.LogFilter
import BootSigning.Process.ToolSearch

/-!
# The program

A whole run of `sign-uefi`, from its command line to its exit code, whatever answers its calls.

* `Program.sign`: the tools are looked for, then the boot directory is signed
* `Program.Ending`: what a run leaves
* `Program.execute`: a run on a command line
-/

namespace BootSigning.Program

variable {σ : Type}

/-- The name and version, as `--version` shows them. -/
def version : String := "sign-uefi 0.1.0\n"

def usage : String :=
  "Usage: sign-uefi [-v|--verbose]... [-q|--quiet] <TARGET_DIR> <KEY_DIR> <EFI_GLOB>\n"

/-! ## The run -/

/-- Signs a boot directory, once every required tool is found in the environment. -/
def sign (environment : Environment) (around : Surroundings) (tools : Tools σ)
    (request : SignRequest) : Attempt σ Summary := do
  let fs ← files
  orFail (requireTools tools.names fun name => environment.isAvailable fs (Path.ofString name))
  signTargetDir around tools request

/-- The filter of log records: the directives of the environment, or else the arguments' level. -/
def filterFor (environment : Environment) (arguments : Arguments) : LogFilter × List String :=
  match environment.logDirectives with
  | some directives => LogFilter.parse directives
  | none => (⟨[⟨none, some arguments.level⟩], none⟩, [])

/-! ## The ending -/

/-- What a run leaves. -/
structure Ending where
  exitCode : Nat
  stdout : String
  stderr : String
  files : FileSystem
  /-- What happened, in order. -/
  events : List Event

/-- The end of a run that never started. -/
def refuse (fault : UsageFault) (fs : FileSystem) : Ending :=
  match fault with
  | .version => ⟨fault.exitCode, version, "", fs, []⟩
  | .help => ⟨fault.exitCode, usage, "", fs, []⟩
  | _ => ⟨fault.exitCode, "", usage, fs, []⟩

/-- The line of an event that the filter shows. -/
def shownLine? (filter : LogFilter) : Event → Option String
  | .log record => if filter.shows record then some record.line else none
  | .called .. => none

def warning (report : String) : String := s!"warning: {report}, ignoring it\n"

/-- The end of a run that came to a result. -/
def conclude (filter : LogFilter) (reports : List String) (result : Except SignError Summary)
    (world : World σ) : Ending :=
  let spoken :=
    String.join (reports.map warning ++ world.events.filterMap (shownLine? filter))
  match result with
  | .ok _ => ⟨0, "", spoken, world.files, world.events⟩
  | .error e => ⟨1, "", spoken ++ e.message ++ "\n", world.files, world.events⟩

/-- A run on a command line, the program's name left out. -/
def execute (environment : Environment) (around : Surroundings) (executor : Executor σ)
    (memory : σ) (items : List (List UInt8)) (fs : FileSystem) : Ending :=
  match CommandLine.parse items with
  | .error fault => refuse fault fs
  | .ok arguments =>
    let (filter, reports) := filterFor environment arguments
    let (result, world) :=
      (sign environment around ⟨{}, executor⟩ arguments.request).run.run ⟨fs, memory, []⟩
    conclude filter reports result world

end BootSigning.Program
