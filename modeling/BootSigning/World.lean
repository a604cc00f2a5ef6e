import BootSigning.Process.Executor

/-!
# The world of a run

The state that the parts of a run share, and the two kinds of operations on it.

* `Command`: the calls a run makes, each with its own meaning
* `Event`: a log record, or a command with its answer
* `World`: the files, the memory of the executor, and the events so far
* `Action`, `Attempt`: operations that always finish, and those that may end with an error
-/

namespace BootSigning

/-- A call that a run makes, by what it is for. -/
inductive Command where
  /-- Extracts a section of `artifact` to `dest`; the tool also writes the file `scratch`. -/
  | dumpSection (artifact : Path) (sectionName : String) (dest scratch : Path)
  /-- Writes a copy of `artifact` whose section holds `data`. -/
  | updateSection (artifact : Path) (sectionName : String) (data output : Path)
  /-- Removes the signature of `artifact`. -/
  | stripSignature (artifact : Path)
  /-- Writes a signed copy of `artifact`. -/
  | sign (key cert output artifact : Path)
  /-- Checks the signature of `artifact`. -/
  | verify (cert artifact : Path)
  /-- Copies `source` over `dest` with the rights that takes. -/
  | privilegedCopy (source dest : Path) (force : Bool)
  deriving DecidableEq, Repr

/-- Something that happened. -/
inductive Event where
  | log (record : LogRecord)
  | called (command : Command) (invocation : Invocation) (reply : Reply)
  deriving DecidableEq, Repr

/-- The state that the parts of a run share. -/
structure World (σ : Type) where
  files : FileSystem
  /-- The memory of whatever answers the calls. -/
  memory : σ
  /-- What happened, in order. -/
  events : List Event

/-- An operation that always finishes. -/
abbrev Action (σ α : Type) := StateM (World σ) α

/-- An operation that may end with an error. -/
abbrev Attempt (σ α : Type) := ExceptT SignError (StateM (World σ)) α

section

variable {σ : Type} {m : Type → Type} [Monad m] [MonadState (World σ) m]

def record (event : Event) : m Unit :=
  modify fun w => { w with events := w.events ++ [event] }

def log (level : Level) (component : Component) (message : String) : m Unit :=
  record (.log ⟨level, component, message⟩)

def files : m FileSystem := do return (← get).files

def setFiles (fs : FileSystem) : m Unit := modify fun w => { w with files := fs }

end

/-- Changes the files, unless the change fails. -/
def change {σ : Type} (edit : FileSystem → Except Fault FileSystem) : Attempt σ Unit := do
  match edit (← files) with
  | .ok fs => setFiles fs
  | .error fault => throw (.io fault)

/-- What an attempt comes to, an error included; nothing is passed on. -/
def resultOf {σ α : Type} (attempt : Attempt σ α) : Attempt σ (Except SignError α) :=
  ExceptT.lift attempt.run

end BootSigning
