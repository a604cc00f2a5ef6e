/-!
# Wait statuses

How a finished program ended, as the raw status word of the operating system.

* `WaitStatus.success`, `WaitStatus.code?`: a clean end, and the exit code if there is one
* `WaitStatus.text`: the status in words
* `signalName?`: the names of the signals
-/

namespace BootSigning

/-- The raw status word of a finished or stopped program. -/
structure WaitStatus where
  raw : UInt32
  deriving DecidableEq, Repr, Inhabited

/-- The names of the signals, from 1 on. -/
def signalNames : List String :=
  ["SIGHUP", "SIGINT", "SIGQUIT", "SIGILL", "SIGTRAP", "SIGABRT", "SIGBUS", "SIGFPE", "SIGKILL",
    "SIGUSR1", "SIGSEGV", "SIGUSR2", "SIGPIPE", "SIGALRM", "SIGTERM", "SIGSTKFLT", "SIGCHLD",
    "SIGCONT", "SIGSTOP", "SIGTSTP", "SIGTTIN", "SIGTTOU", "SIGURG", "SIGXCPU", "SIGXFSZ",
    "SIGVTALRM", "SIGPROF", "SIGWINCH", "SIGIO", "SIGPWR", "SIGSYS"]

def signalName? (signal : Nat) : Option String :=
  if signal = 0 then none else signalNames[signal - 1]?

/-- A signal by number, with its name if it has one. -/
def signalText (signal : Nat) : String :=
  match signalName? signal with
  | some name => s!"{signal} ({name})"
  | none => toString signal

namespace WaitStatus

/-- The status of a program that ended with an exit code. -/
def exited (code : UInt8) : WaitStatus := ⟨code.toUInt32 <<< 8⟩

/-- The status of a program that a signal ended. -/
def signaled (signal : UInt32) (dumped : Bool) : WaitStatus :=
  ⟨signal ||| (if dumped then 0x80 else 0)⟩

/-- The seven bits that tell the kinds of statuses apart. -/
def kindBits (s : WaitStatus) : Nat := (s.raw &&& 0x7F).toNat

def secondByte (s : WaitStatus) : Nat := ((s.raw >>> 8) &&& 0xFF).toNat

/-- A core file was written. -/
def dumped (s : WaitStatus) : Bool := s.raw &&& 0x80 != 0

/-- The program ended by itself with code zero. -/
def success (s : WaitStatus) : Bool := s.raw == 0

/-- The exit code of a program that ended by itself. -/
def code? (s : WaitStatus) : Option Nat := if s.kindBits = 0 then some s.secondByte else none

def text (s : WaitStatus) : String :=
  if s.kindBits = 0 then s!"exit status: {s.secondByte}"
  else if s.kindBits ≠ 0x7F then
    s!"signal: {signalText s.kindBits}" ++ (if s.dumped then " (core dumped)" else "")
  else if (s.raw &&& 0xFF) = 0x7F then
    s!"stopped (not terminated) by signal: {signalText s.secondByte}"
  else if s.raw = 0xFFFF then "continued (WIFCONTINUED)"
  else s!"unrecognised wait status: {s.raw.toInt32.toInt} 0x" ++
    String.ofList (Nat.toDigits 16 s.raw.toNat)

end WaitStatus

end BootSigning
