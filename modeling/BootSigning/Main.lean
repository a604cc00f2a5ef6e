import BootSigning.Host.Files
import BootSigning.Host.Launch
import BootSigning.Program

/-!
# sign-uefi

The command line. A run takes place on a host of its own: the programs that every host has, and
what a shell script on standard input sets up there.

* `main`: the run that the arguments ask for
-/

namespace BootSigning.Main

def searchPath : List UInt8 := Utf8.encode "/usr/local/bin:/usr/bin:/bin"

def environment : Environment := ⟨searchPath, Host.home, none⟩

/-- The names of fresh directories end in six digits. -/
def proposals : List Name :=
  (List.range 1000).map fun n =>
    let digits := Nat.toDigits 10 n
    Utf8.encode (String.ofList (List.replicate (6 - digits.length) '0' ++ digits))

def surroundings : Surroundings := ⟨"/tmp", proposals⟩

def settings : Shell.Variables := Host.variablesOf environment surroundings.temporary

/-- A host after a script ran on it, and what the script reported. -/
def prepare (script : List UInt8) : FileSystem × String :=
  match Host.launcher Host.maxDepth (Utf8.encode "/bin/sh") [] script settings Host.files with
  | .ok (output, fs) => ({ fs with cwd := [] }, Utf8.lossy output.stderr)
  | .error errno => (Host.files, errno.message ++ "\n")

/-- The bytes on a stream up to its end. -/
partial def readAll (input : IO.FS.Stream) (soFar : ByteArray) : IO ByteArray := do
  let bytes ← input.read 65536
  if bytes.isEmpty then return soFar else readAll input (soFar ++ bytes)

/-- The items of a command line start a run. -/
def startsRun (items : List (List UInt8)) : Bool := (CommandLine.parse items).isOk

end BootSigning.Main

open BootSigning in
/-- Runs the program on a prepared host and shows what it says. -/
def main (arguments : List String) : IO UInt32 := do
  let items := arguments.map Utf8.encode
  let script ←
    if Main.startsRun items then Main.readAll (← IO.getStdin) ByteArray.empty
    else pure ByteArray.empty
  let (fs, reported) := Main.prepare script.toList
  let executor := Host.executor Main.settings
  let ending := Program.execute Main.environment Main.surroundings executor () items fs
  (← IO.getStderr).putStr (reported ++ ending.stderr)
  (← IO.getStdout).putStr ending.stdout
  return ending.exitCode.toUInt32
