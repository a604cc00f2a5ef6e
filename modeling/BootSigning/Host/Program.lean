import BootSigning.Host.FileTool
import BootSigning.Shell.Run

/-!
# Programs of the host

The programs that every host has, and the files that hold them.

* `HostProgram`: the programs
* `HostProgram.image`, `HostProgram.ofImage?`: the content of a program's file
* `HostProgram.execute`: what a program does
-/

namespace BootSigning

open Shell (Launcher Variables)

inductive HostProgram where
  | shell
  | succeed
  | fail
  | echo
  | printf
  | workingDirectory
  | concatenate
  | sleep
  /-- A program that changes files. -/
  | fileTool (tool : FileTool)
  deriving DecidableEq, Repr

namespace HostProgram

def name : HostProgram → String
  | .shell => "sh"
  | .succeed => "true"
  | .fail => "false"
  | .echo => "echo"
  | .printf => "printf"
  | .workingDirectory => "pwd"
  | .concatenate => "cat"
  | .sleep => "sleep"
  | .fileTool tool => tool.name

def all : List HostProgram :=
  [.shell, .succeed, .fail, .echo, .printf, .workingDirectory, .concatenate, .sleep] ++
    FileTool.all.map .fileTool

/-- The bytes that the file of a program starts with. -/
def magic : List UInt8 := [0x7F, 0x45, 0x4C, 0x46]

def image (p : HostProgram) : List UInt8 := magic ++ Utf8.encode p.name

def ofImage? (content : List UInt8) : Option HostProgram := all.find? (·.image == content)

def printed (bytes : List UInt8) : Output := ⟨.exited 0, bytes, []⟩

/-- What a file gives to a program that passes it on. -/
def contentOf (fs : FileSystem) (input : List UInt8) (file : List UInt8) : Output :=
  if file = [0x2D] then printed input
  else match fs.read ⟨file⟩ with
    | .ok content => printed content
    | .error fault =>
      ⟨.exited 1, [], Utf8.encode "cat: " ++ file ++ Utf8.encode s!": {fault.text}\n"⟩

def concatenated (fs : FileSystem) (input : List UInt8) (files : List (List UInt8)) : Output :=
  let parts := (if files.isEmpty then [[0x2D]] else files).map (contentOf fs input)
  let failed := parts.any fun part => !part.status.success
  ⟨.exited (if failed then 1 else 0), parts.flatMap (·.stdout), parts.flatMap (·.stderr)⟩

/-- What a program does. The first argument is the name it was called by. -/
def execute (launch : Launcher) (p : HostProgram) (arguments : List (List UInt8))
    (input : List UInt8) (bindings : Variables) (fs : FileSystem) : Output × FileSystem :=
  let given := arguments.drop 1
  match p with
  | .shell => Shell.execute launch arguments input bindings fs
  | .succeed | .sleep => (printed [], fs)
  | .fail => (⟨.exited 1, [], []⟩, fs)
  | .echo => (printed (Shell.toBytes (Shell.Printing.echo (given.map Shell.ofBytes))), fs)
  | .printf =>
    let texts := given.map Shell.ofBytes
    (printed (Shell.toBytes (Shell.Printing.printf (texts.headD []) (texts.drop 1))), fs)
  | .workingDirectory => (printed ((FileSystem.pathOf fs.cwd).bytes ++ [0x0A]), fs)
  | .concatenate => (concatenated fs input given, fs)
  | .fileTool tool => tool.execute given fs

end HostProgram

end BootSigning
