import BootSigning.Glob.Walk
import BootSigning.Process.Executor
import BootSigning.Text.Occurrence
import BootSigning.Workspace

/-!
# Scripted executors

An executor that starts nothing and answers by rules.

* `Rule`: which calls it answers, and how
* `Script.executor`: the executor of a list of rules; the first that answers counts
* `Workspace.find?`: the workspace that is there now
-/

namespace BootSigning

structure Rule where
  /-- The program, if only calls of it fit. -/
  program : Option String
  /-- Texts that the line of a call must contain. -/
  parts : List String
  /-- How many calls that fit are passed on first. -/
  skip : Nat
  /-- How many are answered then; no number means all. -/
  times : Option Nat
  /-- What is written where a call asks for the SBAT section. -/
  dump : Option (List UInt8)
  /-- What else is done to the files. -/
  effect : FileSystem → FileSystem
  reply : Reply

namespace Rule

/-- The call is one that the rule is about. -/
def fits (rule : Rule) (call : Invocation) : Bool :=
  (match rule.program with
    | some program => program == call.program
    | none => true) &&
  rule.parts.all fun part => Text.occursIn part call.line

/-- The rule answers the call that fits after `seen` others did. -/
def answers (rule : Rule) (seen : Nat) : Bool :=
  decide (rule.skip ≤ seen) &&
    (match rule.times with
      | some times => decide (seen < rule.skip + times)
      | none => true)

/-- The text that starts a request for the SBAT section. -/
def dumpRequest : List Char := "--dump-section=.sbat=".toList

/-- The file that a call asks the SBAT section to be written to. -/
def dumpTarget? (call : Invocation) : Option Path :=
  match call.arguments with
  | first :: _ =>
    if dumpRequest.isPrefixOf first.toList then
      some (Path.ofString (String.ofList (first.toList.drop dumpRequest.length)))
    else none
  | [] => none

/-- The files after the rule answered a call. -/
def applyTo (rule : Rule) (call : Invocation) (fs : FileSystem) : FileSystem :=
  let dumped :=
    match rule.dump, dumpTarget? call with
    | some content, some target => Entry.orUnchanged fs (fs.write target content)
    | _, _ => fs
  rule.effect dumped

end Rule

namespace Script

/-- Success without a word. -/
def quietSuccess : Reply := .finished ⟨⟨0⟩, [], []⟩

/--
The answer of the first rule that answers. The memory holds, for each rule, how many calls that fit
have reached it.
-/
def answer (call : Invocation) :
    List Rule → List Nat → FileSystem → Reply × List Nat × FileSystem
  | rule :: rules, seen :: counts, fs =>
    if rule.fits call then
      if rule.answers seen then (rule.reply, (seen + 1) :: counts, rule.applyTo call fs)
      else
        let (reply, counts, fs) := answer call rules counts fs
        (reply, (seen + 1) :: counts, fs)
    else
      let (reply, counts, fs) := answer call rules counts fs
      (reply, seen :: counts, fs)
  | _, counts, fs => (quietSuccess, counts, fs)

def executor (rules : List Rule) : Executor (List Nat) where
  announce _ := []
  answer call counts fs := Script.answer call rules counts fs

def noCalls (rules : List Rule) : List Nat := rules.map fun _ => 0

end Script

/-- The first directory in `temporary` that is named like a workspace. -/
def Workspace.find? (fs : FileSystem) (temporary : Path) : Option Path :=
  ((Glob.sortNames (fs.namesAt temporary)).map fun name => (name, temporary / (⟨name⟩ : Path)))
    |>.find? (fun entry => Workspace.namePrefix.isPrefixOf entry.1 && fs.isDirectory entry.2)
    |>.map Prod.snd

end BootSigning
