import BootSigning.Proofs.Runs
import BootSigning.Proofs.Ways

/-!
# Verdict — what a classification depends on

All artifacts of a session have their tables extracted to one file, so a table may be there from an
earlier artifact.

* `extract_called`, `isCrdyboot_run`: there is one call, and the verdict is on the table as the tool
  left it;
* `Sbat.Writing`, `Dumps`: what a call may do to that table, and a call that answers so;
* `verdicts_agree_iff`: the verdict is that of an empty workspace, unless the tool succeeded without
  writing a table and the one that was there says yes.
-/

namespace BootSigning

variable {σ τ : Type}

/-! ## One classification -/

/-- The answer to the call that extracts the table of an artifact with the given name. -/
def dumpAnswer (tools : Tools σ) (workspace artifact : Path) (name : Name) (w : World σ) :
    Reply × σ × FileSystem :=
  let command : Command := .dumpSection artifact Sbat.sectionName (Sbat.fileIn workspace)
    (Sbat.scratchIn workspace name)
  tools.executor.answer (command.invocation tools.names) w.memory w.files

/-- The command that extracts the table of an artifact with the given name. -/
def Sbat.dumping (workspace artifact : Path) (name : Name) : Command :=
  .dumpSection artifact Sbat.sectionName (Sbat.fileIn workspace) (Sbat.scratchIn workspace name)

/-- After its one call an extraction does nothing but settle what the table is. -/
theorem extract_called (tools : Tools σ) (workspace : Path) {artifact : Path} {name : Name}
    (hname : artifact.fileName? = some name) (w : World σ) :
    let answer := dumpAnswer tools workspace artifact name w
    ∃ called, called.files = answer.2.2 ∧ called.memory = answer.2.1 ∧
      called.calls = w.calls ++ [⟨Sbat.dumping workspace artifact name, answer.1⟩] ∧
      (Sbat.extract tools workspace artifact).run.run w =
        (Sbat.settle artifact (Sbat.fileIn workspace) answer.1).run.run called := by
  intro answer
  rcases called_run tools (Sbat.dumping workspace artifact name) w with
    ⟨called, hrun, hfiles, hmemory, hcalls⟩
  refine ⟨called, hfiles, hmemory, hcalls, ?_⟩
  rw [extract_named tools workspace hname, StateT.run_bind]
  exact congrArg (fun r => (Sbat.settle artifact (Sbat.fileIn workspace) r.1).run.run r.2) hrun

/-- The verdict is on the table as the tool left it, if the tool succeeded. -/
theorem isCrdyboot_run (tools : Tools σ) (workspace : Path) {artifact : Path} {name : Name}
    (hname : artifact.fileName? = some name) (w : World σ) :
    ((Sbat.isCrdyboot tools workspace artifact).run w).1 =
      ((dumpAnswer tools workspace artifact name w).1.succeeded &&
        tableVerdict ((dumpAnswer tools workspace artifact name w).2.2.readText
          (Sbat.fileIn workspace))) := by
  rcases extract_called tools workspace hname w with ⟨called, hfiles, -, -, hextract⟩
  rw [Sbat.isCrdyboot, StateT.run_bind, hextract, ← hfiles]
  cases hsucceeded : (dumpAnswer tools workspace artifact name w).1.succeeded with
  | false =>
    rcases conclude_failed artifact (Sbat.fileIn workspace) hsucceeded called with
      ⟨_, _, _, hverdict⟩
    exact hverdict
  | true =>
    rw [Sbat.settle, hsucceeded]
    exact (judge_run artifact (Sbat.fileIn workspace) called).1

theorem isCrdyboot_nameless (tools : Tools σ) (workspace : Path) {artifact : Path}
    (hname : artifact.fileName? = none) (w : World σ) :
    ((Sbat.isCrdyboot tools workspace artifact).run w).1 = false := by
  rw [Sbat.isCrdyboot, extract_nameless tools workspace hname]
  rfl

/-! ## Tables of earlier artifacts -/

/-- What a call does to the table. -/
inductive Sbat.Writing where
  /-- Whatever was there before is still there. -/
  | nothing
  /-- There is a new table, or none that can be read. -/
  | table (text : Except Fault String)

/-- What is read from the table after a call that found `before` there. -/
def Sbat.Writing.after (before : Except Fault String) : Sbat.Writing → Except Fault String
  | .nothing => before
  | .table text => text

/-- In the world `w` the tool answers the call for an artifact like this, and writes like this. -/
def Dumps (tools : Tools σ) (workspace artifact : Path) (w : World σ) (reply : Reply)
    (writing : Sbat.Writing) : Prop :=
  ∀ name, artifact.fileName? = some name →
    let answer := dumpAnswer tools workspace artifact name w
    answer.1 = reply ∧ answer.2.2.readText (Sbat.fileIn workspace) =
      writing.after (w.files.readText (Sbat.fileIn workspace))

theorem Dumps.verdict {tools : Tools σ} {workspace artifact : Path} {w : World σ} {reply : Reply}
    {writing : Sbat.Writing} (h : Dumps tools workspace artifact w reply writing) :
    ((Sbat.isCrdyboot tools workspace artifact).run w).1 =
      (artifact.fileName?.isSome && reply.succeeded &&
        tableVerdict (writing.after (w.files.readText (Sbat.fileIn workspace)))) := by
  cases hname : artifact.fileName? with
  | none => exact isCrdyboot_nameless tools workspace hname w
  | some name =>
    rcases h name hname with ⟨hreply, hread⟩
    rw [isCrdyboot_run tools workspace hname, hreply, hread]
    rfl

/-- A tool that leaves a text in the table has written that text. -/
theorem Dumps.of_text {tools : Tools σ} {workspace artifact : Path} {w : World σ} {reply : Reply}
    {fs : FileSystem} {text : String}
    (hanswer : ∀ name, (dumpAnswer tools workspace artifact name w).1 = reply ∧
      (dumpAnswer tools workspace artifact name w).2.2 = fs)
    (hread : (fs.readText (Sbat.fileIn workspace)).toOption = some text) :
    Dumps tools workspace artifact w reply (.table (.ok text)) := by
  intro name _
  rcases hanswer name with ⟨hreply, hfiles⟩
  refine ⟨hreply, ?_⟩
  rw [hfiles]
  cases htext : fs.readText (Sbat.fileIn workspace) with
  | error fault =>
    rw [htext] at hread
    cases hread
  | ok found =>
    rw [htext] at hread
    cases hread
    rfl

/-- A tool that leaves the files as they are leaves the table alone. -/
theorem Dumps.of_same {tools : Tools σ} {workspace artifact : Path} {w : World σ} {reply : Reply}
    (hanswer : ∀ name, (dumpAnswer tools workspace artifact name w).1 = reply ∧
      (dumpAnswer tools workspace artifact name w).2.2 = w.files) :
    Dumps tools workspace artifact w reply .nothing := by
  intro name _
  rcases hanswer name with ⟨hreply, hfiles⟩
  refine ⟨hreply, ?_⟩
  rw [hfiles]
  rfl

/-- The workspace is there and has nothing in it. -/
def EmptyAt (workspace : Path) (fs : FileSystem) : Prop :=
  fs.isDirectory workspace = true ∧ ∀ name, ¬fs.HasEntry workspace name

theorem stat_of_readText {fs : FileSystem} {p : Path} {text : String}
    (h : fs.readText p = .ok text) : ∃ node, fs.stat p = .ok node := by
  cases hread : fs.read p with
  | error fault => simp [FileSystem.readText, hread, bind, Except.bind] at h
  | ok bytes =>
    rcases FileSystem.stat_of_read hread with ⟨mode, hstat⟩ | ⟨hstat, _⟩
    · exact ⟨_, hstat⟩
    · exact ⟨_, hstat⟩

/-- In an empty workspace there is no table that says yes. -/
theorem tableVerdict_of_empty {fs : FileSystem} {workspace : Path} (h : EmptyAt workspace fs) :
    tableVerdict (fs.readText (Sbat.fileIn workspace)) = false := by
  rcases h with ⟨hdir, hnone⟩
  cases hread : fs.readText (Sbat.fileIn workspace) with
  | error fault => rfl
  | ok text =>
    exfalso
    rcases stat_of_readText hread with ⟨node, hstat⟩
    have hrelative : Path.isAbsolute ("sbat.csv" : Path) = false := by decide
    have hsteps : (Sbat.fileIn workspace).steps =
        workspace.steps ++ [Utf8.encode "sbat.csv"] := by
      have hname : Path.steps ("sbat.csv" : Path) = [Utf8.encode "sbat.csv"] := by decide +kernel
      rw [← hname]
      exact Path.steps_join workspace hrelative
    rcases FileSystem.isDirectory_iff.1 hdir with ⟨dir, hresolve, _⟩
    exact hnone _ (FileSystem.hasEntry_of_stat hstat (Path.isAbsolute_join workspace hrelative)
      hsteps ⟨by decide +kernel, by decide +kernel⟩ (FileSystem.resolve_iff.1 hresolve).1)

/--
The verdict in any world is that in an empty workspace where the tool does the same, but for one
case: the tool succeeds, writes nothing, and a table of before says yes.
-/
theorem verdicts_agree_iff (tools : Tools σ) (tools' : Tools τ) (workspace artifact : Path)
    (w : World σ) (w' : World τ) (reply : Reply) (writing : Sbat.Writing)
    (h : Dumps tools workspace artifact w reply writing)
    (h' : Dumps tools' workspace artifact w' reply writing) (hempty : EmptyAt workspace w'.files) :
    ((Sbat.isCrdyboot tools workspace artifact).run w).1 =
        ((Sbat.isCrdyboot tools' workspace artifact).run w').1 ↔
      ¬ (artifact.fileName?.isSome ∧ reply.succeeded ∧ writing = .nothing ∧
        tableVerdict (w.files.readText (Sbat.fileIn workspace)) = true) := by
  rw [h.verdict, h'.verdict]
  cases writing with
  | table text => simp [Sbat.Writing.after]
  | nothing =>
    have hfresh : tableVerdict (w'.files.readText (Sbat.fileIn workspace)) = false :=
      tableVerdict_of_empty hempty
    simp only [Sbat.Writing.after, hfresh, Bool.and_false, true_and]
    cases artifact.fileName?.isSome <;> cases reply.succeeded <;> simp

/-! ## A session with two artifacts -/

namespace SmallBoot

/-- The files once a table was extracted to the workspace. -/
def written (fs : FileSystem) (text : String) : FileSystem :=
  Entry.orUnchanged fs (fs.write "/tmp/ws/sbat.csv" (Utf8.encode text))

/-- Always succeeds; the answers to the first calls write these tables, and later ones nothing. -/
def dumping (tables : List String) : Executor Nat where
  announce _ := []
  answer _ calls fs :=
    let after := match tables[calls]? with
      | some text => written fs text
      | none => fs
    (.finished ⟨.exited 0, [], []⟩, calls + 1, after)

/-- Before the first classification of a session. -/
def opened (calls : Nat) : World Nat :=
  ⟨Entry.applyAll files [⟨"/tmp/ws", .directory, none⟩], calls, []⟩

/-- After a bootloader was classified. -/
def classified (tables : List String) : World Nat :=
  ((Sbat.isCrdyboot ⟨{}, dumping tables⟩ "/tmp/ws" "/boot/efi/boot/bootia32.efi").run (opened 0)).2

theorem emptyAt_opened (calls : Nat) : EmptyAt "/tmp/ws" (opened calls).files := by
  have hdir : (opened 0).files.isDirectory "/tmp/ws" = true := by decide +kernel
  have hplace : (opened 0).files.resolve .target "/tmp/ws" = .ok (place ["tmp", "ws"]) := by
    decide +kernel
  have hnames : (opened 0).files.names (place ["tmp", "ws"]) = [] := by decide +kernel
  refine ⟨hdir, ?_⟩
  rintro name ⟨loc, hresolve, hname⟩
  cases hplace.symm.trans hresolve
  exact List.not_mem_nil (hnames ▸ hname)

section

variable {tables : List String} {w : World Nat}

theorem dumping_writes {text : String} (htable : tables[w.memory]? = some text)
    (hread : ((written w.files text).readText (Sbat.fileIn "/tmp/ws")).toOption = some text)
    (artifact : Path) :
    Dumps ⟨{}, dumping tables⟩ "/tmp/ws" artifact w (.finished ⟨.exited 0, [], []⟩)
      (.table (.ok text)) := by
  refine Dumps.of_text (fun name => ?_) hread
  simp only [dumpAnswer, dumping, htable, and_self]

theorem dumping_leaves (htable : tables[w.memory]? = none) (artifact : Path) :
    Dumps ⟨{}, dumping tables⟩ "/tmp/ws" artifact w (.finished ⟨.exited 0, [], []⟩) .nothing := by
  refine Dumps.of_same fun name => ?_
  simp only [dumpAnswer, dumping, htable, and_self]

end

end SmallBoot

/-- The table that is there says yes, but a new one is written, and the verdict is on that. -/
theorem verdicts_agree_replaced :
    let tables := ["sbat\ncrdyboot", "sbat\nshim"]
    let tools : Tools Nat := ⟨{}, SmallBoot.dumping tables⟩
    let artifact : Path := "/boot/efi/boot/bootx64.efi"
    let reply : Reply := .finished ⟨.exited 0, [], []⟩
    let writing : Sbat.Writing := .table (.ok "sbat\nshim")
    Dumps tools "/tmp/ws" artifact (SmallBoot.classified tables) reply writing ∧
      Dumps tools "/tmp/ws" artifact (SmallBoot.opened 1) reply writing ∧
      EmptyAt "/tmp/ws" (SmallBoot.opened 1).files ∧
      tableVerdict ((SmallBoot.classified tables).files.readText (Sbat.fileIn "/tmp/ws")) = true ∧
      ((Sbat.isCrdyboot tools "/tmp/ws" artifact).run (SmallBoot.classified tables)).1 =
        ((Sbat.isCrdyboot tools "/tmp/ws" artifact).run (SmallBoot.opened 1)).1 := by
  intro tables tools artifact reply writing
  have hstale : Dumps tools "/tmp/ws" artifact (SmallBoot.classified tables) reply writing :=
    SmallBoot.dumping_writes (by decide +kernel) (by decide +kernel) artifact
  have hfresh : Dumps tools "/tmp/ws" artifact (SmallBoot.opened 1) reply writing :=
    SmallBoot.dumping_writes rfl (by decide +kernel) artifact
  have hempty := SmallBoot.emptyAt_opened 1
  have hagree := verdicts_agree_iff tools tools "/tmp/ws" artifact (SmallBoot.classified tables)
    (SmallBoot.opened 1) reply writing hstale hfresh hempty
  exact ⟨hstale, hfresh, hempty, by decide +kernel, hagree.2 (by simp [writing])⟩

/--
A table is left by the first of two artifacts, and nothing is written for the second: it counts as a
crdyboot build, which in an empty workspace it does not.
-/
theorem verdict_of_earlier_table :
    let tables := ["sbat\ncrdyboot"]
    let tools : Tools Nat := ⟨{}, SmallBoot.dumping tables⟩
    let artifact : Path := "/boot/efi/boot/bootx64.efi"
    let reply : Reply := .finished ⟨.exited 0, [], []⟩
    Dumps tools "/tmp/ws" artifact (SmallBoot.classified tables) reply .nothing ∧
      Dumps tools "/tmp/ws" artifact (SmallBoot.opened 1) reply .nothing ∧
      EmptyAt "/tmp/ws" (SmallBoot.opened 1).files ∧
      ((Sbat.isCrdyboot tools "/tmp/ws" artifact).run (SmallBoot.classified tables)).1 = true ∧
      ((Sbat.isCrdyboot tools "/tmp/ws" artifact).run (SmallBoot.opened 1)).1 = false := by
  intro tables tools artifact reply
  refine ⟨SmallBoot.dumping_leaves (by decide +kernel) artifact,
    SmallBoot.dumping_leaves rfl artifact, SmallBoot.emptyAt_opened 1, ?_, ?_⟩
  · decide +kernel
  · decide +kernel

end BootSigning
