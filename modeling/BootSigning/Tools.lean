import BootSigning.World

/-!
# Signing tools

The programs a run calls, and how each command is put to them.

* `ToolNames`, `ToolNames.required`: the names of the programs, and those that must be there
* `Command.invocation`: the program and arguments of a command
* `Tools`: tool names with an executor; `Tools.run` makes one call
* `requireTools`: the check that comes before a run
-/

namespace BootSigning

/-- The names of the programs behind the commands. -/
structure ToolNames where
  /-- Reads and writes sections of binaries. -/
  objcopy : String := "objcopy"
  /-- Removes signatures. -/
  sbattach : String := "sbattach"
  /-- Signs. -/
  sbsign : String := "sbsign"
  /-- Checks signatures. -/
  sbverify : String := "sbverify"
  /-- Runs another program with the rights to write to a boot directory. -/
  elevate : String := "sudo"
  /-- Copies files. -/
  cp : String := "cp"
  deriving DecidableEq, Repr

/-- The programs that must be found before a run starts; the others every host has. -/
def ToolNames.required (names : ToolNames) : List String :=
  [names.objcopy, names.sbattach, names.sbsign, names.sbverify]

/-- Success if every required tool is found, else the error for the first that is not. -/
def requireTools (names : ToolNames) (isFound : String → Bool) : Except SignError Unit :=
  match names.required.find? (!isFound ·) with
  | some tool => .error (.toolNotFound tool)
  | none => .ok ()

/-- How a command is put to the tools. -/
def Command.invocation (names : ToolNames) : Command → Invocation
  | .dumpSection artifact sectionName dest scratch =>
    ⟨names.objcopy, [s!"--dump-section={sectionName}={dest}", artifact.text, scratch.text]⟩
  | .updateSection artifact sectionName data output =>
    ⟨names.objcopy, ["--update-section", s!"{sectionName}={data}", artifact.text, output.text]⟩
  | .stripSignature artifact => ⟨names.elevate, [names.sbattach, "--remove", artifact.text]⟩
  | .sign key cert output artifact =>
    ⟨names.sbsign,
      ["--key", key.text, "--cert", cert.text, "--output", output.text, artifact.text]⟩
  | .verify cert artifact => ⟨names.sbverify, ["--cert", cert.text, artifact.text]⟩
  | .privilegedCopy source dest force =>
    ⟨names.elevate,
      names.cp :: (if force then ["--force"] else []) ++ [source.text, dest.text]⟩

/-- Tool names with whatever answers the calls. -/
structure Tools (σ : Type) where
  names : ToolNames
  executor : Executor σ

/-- Makes one call: logs its line, has it answered, and notes it with the answer. -/
def Tools.run {σ : Type} (tools : Tools σ) (command : Command) : Action σ Reply := do
  let invocation := command.invocation tools.names
  log .debug .tools invocation.line
  (tools.executor.announce invocation).forM fun r => record (.log r)
  let w ← get
  let (reply, memory, fs) := tools.executor.answer invocation w.memory w.files
  set { w with memory := memory, files := fs }
  record (.called command invocation reply)
  return reply

end BootSigning
