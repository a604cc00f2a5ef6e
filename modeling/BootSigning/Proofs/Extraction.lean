import BootSigning.Proofs.Encoding
import BootSigning.Proofs.Release
import BootSigning.Proofs.Rendering
import BootSigning.Proofs.Verdict
import Mathlib.Logic.Function.Iterate

/-!
# Extraction — one classification, and the same one again

Classifying an artifact takes one call, which extracts the table of the artifact to the workspace.

* `tableVerdict_iff`: which tables say yes;
* `Classified`: what a classification comes to in the world that it leaves;
* `Emptied`: what is left of the table where the extraction failed;
* `DumpsAgain`, `verdict_again`: the same classification once more, and as often as one likes.

`classified_exactly` puts these together: the verdict is settled by the answer to the one call and
by the table as it is then, and it stays the same for as long as the tool does the same.  It need
not if the tool writes its first table only later.
-/

namespace BootSigning

variable {σ : Type}

/-! ## Tables that say yes -/

theorem FileSystem.readText_eq_ok_iff {fs : FileSystem} {p : Path} {text : String} :
    fs.readText p = .ok text ↔ fs.read p = .ok (Utf8.encode text) := by
  cases hread : fs.read p with
  | error fault => simp [FileSystem.readText, hread, bind, Except.bind]
  | ok bytes =>
    have hencoded : fs.readText p = .ok text ↔ Utf8.text? bytes = some text := by
      rw [FileSystem.readText, hread]
      cases htext : Utf8.text? bytes <;> simp [htext, bind, Except.bind, pure, Except.pure, throw,
        throwThe, MonadExceptOf.throw]
    rw [hencoded, Utf8.text?_eq_some_iff, Except.ok.injEq]
    exact eq_comm

/-- A table says yes if it can be read, is a text, and has a second row that is about crdyboot. -/
theorem tableVerdict_iff {fs : FileSystem} {table : Path} :
    tableVerdict (fs.readText table) = true ↔
      ∃ text, fs.read table = .ok (Utf8.encode text) ∧ ∃ first second rest,
        Sbat.Table.parse text = first :: second :: rest ∧ second.head? = some "crdyboot" := by
  cases hread : fs.readText table with
  | error fault =>
    have hnone : ∀ text, fs.read table ≠ .ok (Utf8.encode text) := by
      intro text htext
      rw [FileSystem.readText_eq_ok_iff.2 htext] at hread
      cases hread
    simp [tableVerdict, hnone]
  | ok text =>
    have hsame : ∀ other, fs.read table = .ok (Utf8.encode other) ↔ text = other := by
      intro other
      rw [← FileSystem.readText_eq_ok_iff, hread, Except.ok.injEq]
    simp [tableVerdict, hsame, Sbat.isCrdyboot_iff]

/-! ## One classification -/

/-- What a classification comes to, the command of which is answered as given. -/
structure Classified (workspace artifact : Path) (name : Name) (w : World σ)
    (answer : Reply × σ × FileSystem) (outcome : Bool × World σ) : Prop where
  /-- The tool ended well, and the table that is there then says yes. -/
  verdict : outcome.1 = true ↔
    (∃ output, answer.1 = .finished output ∧ output.status.raw = 0) ∧
      ∃ text, answer.2.2.read (Sbat.fileIn workspace) = .ok (Utf8.encode text) ∧
        ∃ first second rest, Sbat.Table.parse text = first :: second :: rest ∧
          second.head? = some "crdyboot"
  /-- There is one call, and no other changes the memory of what answers calls. -/
  calls : outcome.2.calls = w.calls ++ [⟨Sbat.dumping workspace artifact name, answer.1⟩]
  memory : outcome.2.memory = answer.2.1

/-- The path of the table is what came of an extraction, and there is an empty table. -/
structure Emptied (table : Path) (outcome : Except SignError Path × World σ) : Prop where
  path : outcome.1 = .ok table
  /-- A device in the place of the table holds nothing either. -/
  empty : (∃ mode, outcome.2.files.stat table = .ok (.file mode [])) ∨
    outcome.2.files.stat table = .ok .sink

section

variable (tools : Tools σ) (workspace : Path) {artifact : Path} {name : Name}
  (hname : artifact.fileName? = some name) (w : World σ)

include hname

theorem isCrdyboot_classified :
    Classified workspace artifact name w (dumpAnswer tools workspace artifact name w)
      ((Sbat.isCrdyboot tools workspace artifact).run w) := by
  let answer := dumpAnswer tools workspace artifact name w
  rcases extract_called tools workspace hname w with ⟨called, -, hmemory, hcalls, hextract⟩
  -- what follows the call only empties the table and logs
  have hown : ByItself workspace called ((Sbat.isCrdyboot tools workspace artifact).run w).2 := by
    rw [Sbat.isCrdyboot, StateT.run_bind, hextract]
    exact (settle_own workspace artifact answer.1 called).trans
      (.of_quiet (conclude_quiet artifact _ _))
  refine ⟨?_, hown.calls.trans hcalls, hown.memory.trans hmemory⟩
  rw [isCrdyboot_run tools workspace hname, Bool.and_eq_true, Reply.succeeded_iff,
    tableVerdict_iff]

/-- Whatever a failing tool left in its place, the table is made empty if that can be done. -/
theorem extract_emptied {fs : FileSystem}
    (hfailed : (dumpAnswer tools workspace artifact name w).1.succeeded = false)
    (hwrite : (dumpAnswer tools workspace artifact name w).2.2.write (Sbat.fileIn workspace) [] =
      .ok fs) :
    Emptied (Sbat.fileIn workspace) ((Sbat.extract tools workspace artifact).run.run w) := by
  rcases extract_called tools workspace hname w with ⟨called, hfiles, -, -, hextract⟩
  rcases settle_failed artifact (Sbat.fileIn workspace) hfailed called with ⟨logged, -, hsettle⟩
  rw [hextract, hsettle, hfiles, hwrite]
  exact ⟨rfl, FileSystem.stat_of_write hwrite⟩

/-- Where the tool succeeded, a classification leaves the files as the tool left them. -/
theorem isCrdyboot_files
    (hsucceeded : (dumpAnswer tools workspace artifact name w).1.succeeded = true) :
    ((Sbat.isCrdyboot tools workspace artifact).run w).2.files =
      (dumpAnswer tools workspace artifact name w).2.2 := by
  rcases extract_called tools workspace hname w with ⟨called, hfiles, -, -, hextract⟩
  rw [Sbat.isCrdyboot, StateT.run_bind, hextract, Sbat.settle, hsucceeded]
  exact (judge_run artifact (Sbat.fileIn workspace) called).2.files.trans hfiles

end

/-! ## The same classification again -/

/-- The world after an artifact was classified. -/
def Sbat.afterwards (tools : Tools σ) (workspace artifact : Path) (w : World σ) : World σ :=
  ((Sbat.isCrdyboot tools workspace artifact).run w).2

/-- Writing the same table twice is writing it once. -/
theorem Sbat.Writing.after_after (writing : Sbat.Writing) (before : Except Fault String) :
    writing.after (writing.after before) = writing.after before := by
  cases writing <;> rfl

section

variable {tools : Tools σ} {workspace artifact : Path} {name : Name} {w : World σ} {reply : Reply}
  {first writing : Sbat.Writing}

/-- Where the tool succeeded, the table that it wrote is still there after the verdict. -/
theorem Dumps.readText_afterwards (h : Dumps tools workspace artifact w reply writing)
    (hname : artifact.fileName? = some name) (hsucceeded : reply.succeeded = true) :
    (Sbat.afterwards tools workspace artifact w).files.readText (Sbat.fileIn workspace) =
      writing.after (w.files.readText (Sbat.fileIn workspace)) := by
  rcases h name hname with ⟨hreply, hread⟩
  rw [Sbat.afterwards, isCrdyboot_files tools workspace hname w (hreply ▸ hsucceeded), hread]

/-- The tool answers as the first time, and does to the table what it did then or leaves it alone. -/
def DumpsAgain (tools : Tools σ) (workspace artifact : Path) (w : World σ) (reply : Reply)
    (first : Sbat.Writing) : Prop :=
  Dumps tools workspace artifact w reply first ∨ Dumps tools workspace artifact w reply .nothing

/-- Once the table is as after the first time, it stays so. -/
theorem DumpsAgain.readText_afterwards {before : Except Fault String}
    (h : DumpsAgain tools workspace artifact w reply first)
    (hname : artifact.fileName? = some name) (hsucceeded : reply.succeeded = true)
    (hread : w.files.readText (Sbat.fileIn workspace) = first.after before) :
    (Sbat.afterwards tools workspace artifact w).files.readText (Sbat.fileIn workspace) =
      first.after before := by
  rcases h with h | h
  · rw [h.readText_afterwards hname hsucceeded, hread, first.after_after]
  · rw [h.readText_afterwards hname hsucceeded, hread]
    rfl

/-- Where the table is as after the first time, the verdict is that of the first time. -/
theorem DumpsAgain.verdict {start : World σ}
    (h : DumpsAgain tools workspace artifact w reply first)
    (hfirst : Dumps tools workspace artifact start reply first)
    (hread : artifact.fileName?.isSome = true → reply.succeeded = true →
      w.files.readText (Sbat.fileIn workspace) =
        first.after (start.files.readText (Sbat.fileIn workspace))) :
    ((Sbat.isCrdyboot tools workspace artifact).run w).1 =
      ((Sbat.isCrdyboot tools workspace artifact).run start).1 := by
  have hsame : ∀ {writing}, Dumps tools workspace artifact w reply writing →
      (∀ before, writing.after (first.after before) = first.after before) →
      ((Sbat.isCrdyboot tools workspace artifact).run w).1 =
        ((Sbat.isCrdyboot tools workspace artifact).run start).1 := by
    intro writing h hafter
    rw [h.verdict, hfirst.verdict]
    -- the table only counts where there is a name and the tool succeeded
    cases hname : artifact.fileName?.isSome with
    | false => rfl
    | true =>
      cases hsucceeded : reply.succeeded with
      | false => rfl
      | true => rw [hread hname hsucceeded, hafter]
  rcases h with h | h
  · exact hsame h first.after_after
  · exact hsame h fun _ => rfl

/-- However often the classification is repeated, the verdict stays that of the first time. -/
theorem verdict_again {count : Nat} (hfirst : Dumps tools workspace artifact w reply first)
    (hagain : ∀ n < count, DumpsAgain tools workspace artifact
      ((Sbat.afterwards tools workspace artifact)^[n] w) reply first) :
    ∀ n < count, ((Sbat.isCrdyboot tools workspace artifact).run
        ((Sbat.afterwards tools workspace artifact)^[n] w)).1 =
      ((Sbat.isCrdyboot tools workspace artifact).run w).1 := by
  -- from the second time on the table is as after the first
  have hread : ∀ n < count, artifact.fileName?.isSome = true → reply.succeeded = true →
      ((Sbat.afterwards tools workspace artifact)^[n + 1] w).files.readText
          (Sbat.fileIn workspace) =
        first.after (w.files.readText (Sbat.fileIn workspace)) := by
    intro n hn hsome hsucceeded
    rcases Option.isSome_iff_exists.1 hsome with ⟨name, hname⟩
    induction n with
    | zero => exact hfirst.readText_afterwards hname hsucceeded
    | succ n ih =>
      rw [Function.iterate_succ_apply']
      exact (hagain (n + 1) hn).readText_afterwards hname hsucceeded (ih (by omega))
  intro n hn
  cases n with
  | zero => rfl
  | succ n => exact (hagain (n + 1) hn).verdict hfirst (hread n (by omega))

end

/-! ## Classifying an artifact -/

/--
Without a file name the verdict is no and nothing is called.  Else there is one call, and the
verdict is yes exactly if that ended well and left a table that says so; where it failed, the table
is empty afterwards.  A tool that goes on to answer as it did, and each time does to the table what
it did the first time or leaves it alone, gets the same verdict each time.  One that leaves the
table alone first and writes it later need not: `verdict_changed_by_later_table`.
-/
theorem classified_exactly (tools : Tools σ) (workspace artifact : Path) (w : World σ) :
    (match artifact.fileName? with
      | none =>
        let outcome := (Sbat.isCrdyboot tools workspace artifact).run w
        outcome.1 = false ∧ outcome.2.calls = w.calls ∧ outcome.2.memory = w.memory
      | some name =>
        let answer := dumpAnswer tools workspace artifact name w
        Classified workspace artifact name w answer
            ((Sbat.isCrdyboot tools workspace artifact).run w) ∧
          (answer.1.succeeded = false →
            (∃ fs, answer.2.2.write (Sbat.fileIn workspace) [] = .ok fs) →
            Emptied (Sbat.fileIn workspace)
              ((Sbat.extract tools workspace artifact).run.run w))) ∧
      ∀ (count : Nat) (reply : Reply) (first : Sbat.Writing),
        Dumps tools workspace artifact w reply first →
        (∀ n < count, DumpsAgain tools workspace artifact
          ((Sbat.afterwards tools workspace artifact)^[n] w) reply first) →
        ∀ n < count, ((Sbat.isCrdyboot tools workspace artifact).run
            ((Sbat.afterwards tools workspace artifact)^[n] w)).1 =
          ((Sbat.isCrdyboot tools workspace artifact).run w).1 := by
  refine ⟨?_, fun count reply first => verdict_again⟩
  cases hname : artifact.fileName? with
  | none =>
    have hrun : ((Sbat.isCrdyboot tools workspace artifact).run w).2 =
        ((Sbat.conclude artifact (.error (.invalidArtifactPath artifact))).run w).2 := by
      rw [Sbat.isCrdyboot, extract_nameless tools workspace hname, pure_bind]
    have hquiet := conclude_quiet artifact (.error (.invalidArtifactPath artifact)) w
    dsimp only
    rw [hrun]
    exact ⟨isCrdyboot_nameless tools workspace hname w, hquiet.calls, hquiet.memory⟩
  | some name =>
    refine ⟨isCrdyboot_classified tools workspace hname w, ?_⟩
    rintro hfailed ⟨fs, hwrite⟩
    exact extract_emptied tools workspace hname w hfailed hwrite

/-- A table is written twice, and then left alone. -/
theorem classified_exactly_thrice :
    let text := "sbat\ncrdyboot"
    let tools : Tools Nat := ⟨{}, SmallBoot.dumping [text, text]⟩
    let artifact : Path := "/boot/efi/boot/bootx64.efi"
    let reply : Reply := .finished ⟨.exited 0, [], []⟩
    let again := Sbat.afterwards tools "/tmp/ws" artifact
    Dumps tools "/tmp/ws" artifact (SmallBoot.opened 0) reply (.table (.ok text)) ∧
      (∀ n < 3, DumpsAgain tools "/tmp/ws" artifact (again^[n] (SmallBoot.opened 0)) reply
        (.table (.ok text))) ∧
      ((Sbat.isCrdyboot tools "/tmp/ws" artifact).run (SmallBoot.opened 0)).1 = true ∧
      ((Sbat.isCrdyboot tools "/tmp/ws" artifact).run (again^[2] (SmallBoot.opened 0))).1 =
        ((Sbat.isCrdyboot tools "/tmp/ws" artifact).run (SmallBoot.opened 0)).1 := by
  intro text tools artifact reply again
  have hfirst : Dumps tools "/tmp/ws" artifact (SmallBoot.opened 0) reply (.table (.ok text)) :=
    SmallBoot.dumping_writes rfl (by decide +kernel) artifact
  have hagain : ∀ n < 3, DumpsAgain tools "/tmp/ws" artifact (again^[n] (SmallBoot.opened 0)) reply
      (.table (.ok text)) := by
    intro n hn
    rcases n with _ | _ | _ | n
    · exact .inl hfirst
    · exact .inl (SmallBoot.dumping_writes (by decide +kernel) (by decide +kernel) artifact)
    · exact .inr (SmallBoot.dumping_leaves (by decide +kernel) artifact)
    · omega
  have hsame := (classified_exactly tools "/tmp/ws" artifact (SmallBoot.opened 0)).2 3 reply
    (.table (.ok text)) hfirst hagain 2 (by decide)
  exact ⟨hfirst, hagain, by decide +kernel, hsame⟩

/-- Always succeeds; leaves the table alone at first, and writes it at every later call. -/
def SmallBoot.tardy (text : String) : Executor Nat where
  announce _ := []
  answer _ calls fs :=
    (.finished ⟨.exited 0, [], []⟩, calls + 1, if calls = 0 then fs else written fs text)

/--
A tool gives the same answer each time, and each time it writes the same table or leaves it alone;
but it leaves it alone first, and the verdict changes with the first table that it writes.
-/
theorem verdict_changed_by_later_table :
    let text := "sbat\ncrdyboot"
    let tools : Tools Nat := ⟨{}, SmallBoot.tardy text⟩
    let artifact : Path := "/boot/efi/boot/bootx64.efi"
    let reply : Reply := .finished ⟨.exited 0, [], []⟩
    let world := fun n => (Sbat.afterwards tools "/tmp/ws" artifact)^[n] (SmallBoot.opened 0)
    EmptyAt "/tmp/ws" (world 0).files ∧
      (∀ n < 3, Dumps tools "/tmp/ws" artifact (world n) reply .nothing ∨
        Dumps tools "/tmp/ws" artifact (world n) reply (.table (.ok text))) ∧
      ((Sbat.isCrdyboot tools "/tmp/ws" artifact).run (world 0)).1 = false ∧
      ((Sbat.isCrdyboot tools "/tmp/ws" artifact).run (world 1)).1 = true ∧
      ((Sbat.isCrdyboot tools "/tmp/ws" artifact).run (world 2)).1 = true := by
  intro text tools artifact reply world
  have hwaits : ∀ w : World Nat, w.memory = 0 →
      Dumps tools "/tmp/ws" artifact w reply .nothing := by
    intro w hfirst
    refine Dumps.of_same fun name => ?_
    simp only [dumpAnswer, tools, SmallBoot.tardy, if_pos hfirst, reply, and_self]
  have hwrites : ∀ w : World Nat, w.memory ≠ 0 →
      ((SmallBoot.written w.files text).readText (Sbat.fileIn "/tmp/ws")).toOption = some text →
      Dumps tools "/tmp/ws" artifact w reply (.table (.ok text)) := by
    intro w hlater hread
    refine Dumps.of_text (fun name => ?_) hread
    simp only [dumpAnswer, tools, SmallBoot.tardy, if_neg hlater, reply, and_self]
  have hdumps : ∀ n < 3, Dumps tools "/tmp/ws" artifact (world n) reply .nothing ∨
      Dumps tools "/tmp/ws" artifact (world n) reply (.table (.ok text)) := by
    intro n hn
    rcases n with _ | _ | _ | n
    · exact .inl (hwaits _ (by decide +kernel))
    · exact .inr (hwrites _ (by decide +kernel) (by decide +kernel))
    · exact .inr (hwrites _ (by decide +kernel) (by decide +kernel))
    · omega
  refine ⟨SmallBoot.emptyAt_opened 0, hdumps, ?_, ?_, ?_⟩
  · decide +kernel
  · decide +kernel
  · decide +kernel

end BootSigning
