import BootSigning.Proofs.Course
import BootSigning.Proofs.Edits
import BootSigning.Proofs.Operations

/-!
# Runs — the calls of a whole run

A run from its preconditions to the removal of its workspace makes only the calls of its
operations.

* `DeedCalls`, `Recorded`: the calls of one deed of a session, and of several in order;
* `Session.start_cases`, `discard_run`, `finish_run`: the beginning and the end of a session;
* `signTargetDir_recorded`: the calls of a run, and the turns that they belong to.
-/

namespace BootSigning

variable {σ α : Type}

/-! ## Deeds of a session -/

/-- The calls of a deed, by what it is. -/
def DeedCalls (session : Session σ) : Deed → List Call → Prop
  | .classified p verdict, calls =>
    ClassifyCalls session.signer.workspace.path p calls verdict
  | .injected p r, calls => InjectCalls session.keyDir session.signer.workspace.path p calls r
  | .signed p r, calls => SignCalls session.signer p calls r

/-- The calls of deeds, one deed after another. -/
inductive Recorded (session : Session σ) : List Deed → List Call → Prop where
  | nil : Recorded session [] []
  | cons {deed : Deed} {calls : List Call} {deeds : List Deed} {more : List Call}
      (hdeed : DeedCalls session deed calls) (hrest : Recorded session deeds more) :
      Recorded session (deed :: deeds) (calls ++ more)

theorem calls_of_step {session : Session σ} {step : Step σ} (h : step.IsOf session.ops) :
    ∃ calls, step.after.calls = step.before.calls ++ calls ∧ DeedCalls session step.deed calls := by
  rcases step with ⟨before, deed, after⟩
  cases deed with
  | classified p verdict =>
    have hmakes := makes_classify session.signer.tools session.signer.workspace.path p before
    rwa [show (Sbat.isCrdyboot _ _ p).run before = (verdict, after) from h] at hmakes
  | injected p r =>
    have hmakes := makes_inject session.signer.tools session.keyDir session.signer.workspace.path p
      before
    rwa [show (Injection.inject _ _ _ p).run.run before = (r, after) from h] at hmakes
  | signed p r =>
    have hmakes := makes_sign session.signer p before
    rwa [show (session.signer.sign p).run.run before = (r, after) from h] at hmakes

theorem calls_of_course {session : Session σ} {w w' : World σ} {steps : List (Step σ)}
    (h : Course session.ops w steps w') :
    ∃ calls, w'.calls = w.calls ++ calls ∧ Recorded session (deedsOf steps) calls := by
  induction h with
  | quiet hquiet => exact ⟨[], by rw [hquiet.calls, List.append_nil], .nil⟩
  | @step w w' step steps hquiet hstep _ ih =>
    rcases calls_of_step hstep with ⟨calls, hcalls, hdeed⟩
    rcases ih with ⟨more, hmore, hrest⟩
    refine ⟨calls ++ more, ?_, .cons hdeed hrest⟩
    rw [hmore, hcalls, hquiet.calls, List.append_assoc]

/-! ## Opening and ending a session -/

/-- A workspace that is given up at once leaves the files as they were. -/
theorem Workspace.discard_fresh {fs fs' : FileSystem} {parent ws : Path} {proposals : List Name}
    (h : Workspace.makeFresh fs parent proposals = .ok (fs', ws)) (w : World σ) :
    (Workspace.discard ⟨ws⟩).run (w.withFiles fs') = ((), w.withFiles fs) := by
  rw [Workspace.discard, run_files_action]
  show ((), w.withFiles (fs'.removeDirectory ws).files) = _
  rw [Workspace.given_up_of_makeFresh h]

/-- A workspace that could not be opened left nothing; one that was opened is a fresh directory. -/
theorem Workspace.create_cases (around : Surroundings) (w : World σ) :
    (∃ e, (Workspace.create around).run.run w = (.error e, w)) ∨
      ∃ fs ws w', Workspace.makeFresh w.files (Workspace.fromRoot w.files around.temporary)
          around.proposals = .ok (fs, ws) ∧
        Quiet (w.withFiles fs) w' ∧ (Workspace.create around).run.run w = (.ok ⟨ws⟩, w') := by
  rw [Workspace.create, Workspace.createIn, run_files]
  cases hfresh : Workspace.makeFresh w.files (Workspace.fromRoot w.files around.temporary)
      around.proposals with
  | error fault => exact .inl ⟨.io fault, rfl⟩
  | ok made =>
    rcases made with ⟨fs, path⟩
    dsimp only
    rw [run_setFiles]
    split
    · exact .inr ⟨fs, path, _, rfl, Quiet.log .debug .workspace _ (w.withFiles fs), rfl⟩
    · -- the directory that was made for nothing is removed again
      refine .inl ⟨.pathNotText path, ?_⟩
      rw [run_lifted, Workspace.discard_fresh hfresh]
      rfl

/-- A session that could not be opened left nothing; one that was opened has a fresh workspace. -/
theorem Session.start_cases (around : Surroundings) (tools : Tools σ) (keyDir : Path)
    (w : World σ) :
    (∃ e, (Session.start around tools keyDir).run.run w = (.error e, w)) ∨
      ∃ fs ws w', Workspace.makeFresh w.files (Workspace.fromRoot w.files around.temporary)
          around.proposals = .ok (fs, ws) ∧
        Quiet (w.withFiles fs) w' ∧ (Session.start around tools keyDir).run.run w =
          (.ok ⟨⟨tools, Credentials.below keyDir, ⟨ws⟩⟩, keyDir⟩, w') := by
  rw [Session.start, run_files, Credentials.resolve]
  simp only [Credentials.get_below]
  cases CredentialKind.all.find? fun kind => !w.files.isFile (kind.path keyDir) with
  | some kind => exact .inl ⟨_, rfl⟩
  | none =>
    -- with all its files there, a session only needs a workspace
    have hcreated : (orFail (.ok (Credentials.below keyDir)) >>= fun credentials => do
          let workspace ← Workspace.create around
          return ⟨⟨tools, credentials, workspace⟩, keyDir⟩ : Attempt σ (Session σ)).run.run w =
        (Workspace.create around >>= fun workspace =>
          pure ⟨⟨tools, Credentials.below keyDir, workspace⟩, keyDir⟩ :
            Attempt σ (Session σ)).run.run w := rfl
    rw [hcreated, run_bind]
    rcases Workspace.create_cases around w with ⟨e, hrun⟩ | ⟨fs, ws, w', hfresh, hquiet, hrun⟩
    · exact .inl ⟨e, by rw [hrun]⟩
    · exact .inr ⟨fs, ws, w', hfresh, hquiet, by rw [hrun]; rfl⟩

/-- Opening a session calls nothing; a session that was opened has a fresh workspace. -/
theorem start_run (around : Surroundings) (tools : Tools σ) (keyDir : Path) (w : World σ) :
    ((Session.start around tools keyDir).run.run w).2.calls = w.calls ∧
      ∀ session, ((Session.start around tools keyDir).run.run w).1 = .ok session →
        ∃ fs ws, Workspace.makeFresh w.files (Workspace.fromRoot w.files around.temporary)
            around.proposals = .ok (fs, ws) ∧
          session = ⟨⟨tools, Credentials.below keyDir, ⟨ws⟩⟩, keyDir⟩ := by
  rcases Session.start_cases around tools keyDir w with
    ⟨e, hrun⟩ | ⟨fs, ws, w', hfresh, hquiet, hrun⟩
  · rw [hrun]
    exact ⟨rfl, nofun⟩
  · rw [hrun]
    refine ⟨hquiet.calls, fun session hsession => ?_⟩
    cases hsession
    exact ⟨fs, ws, hfresh, rfl⟩

/-- What is left after the workspace was removed as far as it can be. -/
def Workspace.without (ws : Workspace) (fs : FileSystem) : FileSystem :=
  (fs.removeDirectory ws.path).files

/-- A session that is dropped removes its workspace and does nothing else. -/
theorem discard_run (session : Session σ) (w : World σ) :
    Quiet (w.withFiles (session.signer.workspace.without w.files)) (session.discard.run w).2 :=
  Quiet.refl _

/-- The end of a session removes its workspace, and fails only if it cannot be removed. -/
theorem finish_run (session : Session σ) (w : World σ) :
    Quiet (w.withFiles (session.signer.workspace.without w.files))
        (session.finish.run.run w).2 ∧
      (session.finish.run.run w).1 =
        match (w.files.removeDirectory session.signer.workspace.path).fault with
        | none => .ok ()
        | some fault => .error (.io (.atPath fault session.signer.workspace.path)) := by
  let record : LogRecord :=
    ⟨.debug, .workspace, s!"removing workspace {session.signer.workspace.path}"⟩
  let removal := w.files.removeDirectory session.signer.workspace.path
  let removed : World σ := ⟨removal.files, w.memory, w.events ++ [.log record]⟩
  have hfinish : session.finish.run.run w =
      (match removal.fault with
        | none => pure ()
        | some fault => throw (.io (.atPath fault session.signer.workspace.path)) :
          Attempt σ Unit).run.run removed := rfl
  have hquiet : Quiet (w.withFiles removal.files) removed := ⟨rfl, rfl, [record], rfl⟩
  rw [hfinish]
  show Quiet (w.withFiles removal.files) _ ∧ _ = match removal.fault with | none => _ | some _ => _
  cases removal.fault with
  | none => exact ⟨hquiet, rfl⟩
  | some fault => exact ⟨hquiet, rfl⟩

/-! ## The run -/

theorem run_resultOf (x : Attempt σ α) (w : World σ) :
    (resultOf x).run.run w = (.ok (x.run.run w).1, (x.run.run w).2) := rfl

/-- The result of a run whose artifacts were worked through with some result. -/
def Session.ending (session : Session σ) (w : World σ) :
    Except SignError Summary → Except SignError Summary
  | .ok summary =>
    match (w.files.removeDirectory session.signer.workspace.path).fault with
    | none => .ok summary
    | some fault => .error (.io (.atPath fault session.signer.workspace.path))
  | .error e => .error e

/-- A session ends well if it went well and its workspace goes away. -/
theorem Session.ending_eq_ok {session : Session σ} {w : World σ} {r : Except SignError Summary}
    {summary : Summary} :
    session.ending w r = .ok summary ↔
      r = .ok summary ∧
        (w.files.removeDirectory session.signer.workspace.path).fault = none := by
  cases r with
  | error e => simp [ending]
  | ok worked =>
    rw [ending]
    cases (w.files.removeDirectory session.signer.workspace.path).fault with
    | none => simp
    | some fault => simp

/-- A session that went well ends badly only if its workspace stays. -/
theorem Session.ending_eq_error {session : Session σ} {w : World σ} {summary : Summary}
    {e : SignError} :
    session.ending w (.ok summary) = .error e ↔
      ∃ fault, (w.files.removeDirectory session.signer.workspace.path).fault = some fault ∧
        e = .io (.atPath fault session.signer.workspace.path) := by
  rw [Session.ending]
  cases (w.files.removeDirectory session.signer.workspace.path).fault with
  | none => simp
  | some fault => simp [eq_comm]

section

variable (around : Surroundings) (tools : Tools σ) (request : SignRequest)

/-- A run once its session is open works through the artifacts and ends its session. -/
theorem signTargetDir_ended {plan : SigningPlan} {session : Session σ} {w w₀ w₁ : World σ}
    {r : Except SignError Summary} (hplan : SigningPlan.ofPattern request.bootloaders = .ok plan)
    (hstart : (Session.start around tools request.keyDir).run.run w = (.ok session, w₀))
    (hrun : (Orchestration.run ⟨request.targetDir⟩ plan session.ops).run.run w₀ = (r, w₁)) :
    Quiet (w₁.withFiles (session.signer.workspace.without w₁.files))
        ((signTargetDir around tools request).run.run w).2 ∧
      ((signTargetDir around tools request).run.run w).1 = session.ending w₁ r := by
  simp only [signTargetDir, hplan, orFail, pure_bind]
  rw [run_bind, hstart]
  dsimp only
  rw [run_bind, run_resultOf, hrun]
  cases r with
  -- after a failure nobody asks whether the workspace went away
  | error e => exact ⟨discard_run session w₁, rfl⟩
  | ok summary =>
    rcases finish_run session w₁ with ⟨hquiet, hfinish⟩
    dsimp only
    rw [run_bind]
    rcases hfinished : session.finish.run.run w₁ with ⟨finished, w₂⟩
    rw [hfinished] at hquiet hfinish
    rw [Session.ending]
    cases hremoved : (w₁.files.removeDirectory session.signer.workspace.path).fault with
    | none =>
      simp only [hremoved] at hfinish
      subst hfinish
      exact ⟨hquiet, rfl⟩
    | some fault =>
      simp only [hremoved] at hfinish
      subst hfinish
      exact ⟨hquiet, rfl⟩

theorem signTargetDir_started {plan : SigningPlan} {session : Session σ} {w w₀ w₁ : World σ}
    {r : Except SignError Summary} (hplan : SigningPlan.ofPattern request.bootloaders = .ok plan)
    (hstart : (Session.start around tools request.keyDir).run.run w = (.ok session, w₀))
    (hrun : (Orchestration.run ⟨request.targetDir⟩ plan session.ops).run.run w₀ = (r, w₁)) :
    ((signTargetDir around tools request).run.run w).2.calls = w₁.calls ∧
      ((signTargetDir around tools request).run.run w).1 = session.ending w₁ r := by
  rcases signTargetDir_ended around tools request hplan hstart hrun with ⟨hquiet, hresult⟩
  exact ⟨hquiet.calls, hresult⟩

/-- A run whose session never opened fails and leaves nothing. -/
theorem signTargetDir_cases (w : World σ) :
    (∃ plan session w₀, SigningPlan.ofPattern request.bootloaders = .ok plan ∧
        (Session.start around tools request.keyDir).run.run w = (.ok session, w₀)) ∨
      ∃ e, (signTargetDir around tools request).run.run w = (.error e, w) := by
  cases hplan : SigningPlan.ofPattern request.bootloaders with
  | error e =>
    refine .inr ⟨e, ?_⟩
    simp only [signTargetDir, hplan]
    rfl
  | ok plan =>
    rcases Session.start_cases around tools request.keyDir w with
      ⟨e, hrun⟩ | ⟨_, _, w₀, _, _, hrun⟩
    · refine .inr ⟨e, ?_⟩
      simp only [signTargetDir, hplan, orFail, pure_bind]
      rw [run_bind, hrun]
    · exact .inl ⟨plan, _, w₀, rfl, hrun⟩

end

/-- The calls of working through a boot directory are those of the deeds prescribed. -/
theorem run_recorded {session : Session σ} {layout : BootLayout} {plan : SigningPlan}
    {w w' : World σ} {r : Except SignError Summary}
    (hrun : (Orchestration.run layout plan session.ops).run.run w = (r, w')) :
    ∃ (steps : List (Step σ)) (calls : List Call),
      AsPrescribed (groupsOf layout plan) w.files .empty steps r ∧
      Recorded session (deedsOf steps) calls ∧ w'.calls = w.calls ++ calls := by
  have hgoes := goes_run session.ops layout plan w
  rw [Goes, hrun] at hgoes
  rcases hgoes with ⟨steps, hcourse, hprescribed⟩
  rcases calls_of_course hcourse with ⟨calls, hcalls, hrecorded⟩
  exact ⟨steps, calls, hprescribed, hrecorded, hcalls⟩

/--
The calls of a run: none, if its session never opened; else those of the turns that it took in a
session with a fresh workspace.
-/
theorem signTargetDir_recorded (around : Surroundings) (tools : Tools σ) (request : SignRequest)
    (w : World σ) :
    let outcome := (signTargetDir around tools request).run.run w
    (outcome.2.calls = w.calls ∧ ∃ e, outcome.1 = .error e) ∨
      ∃ (fs : FileSystem) (ws : Path) (plan : SigningPlan) (w₀ : World σ) (steps : List (Step σ))
        (calls : List Call) (taken : Except SignError Summary),
        Workspace.makeFresh w.files (Workspace.fromRoot w.files around.temporary)
          around.proposals = .ok (fs, ws) ∧
        Taken (prescribe (groupsOf ⟨request.targetDir⟩ plan) w₀.files steps).turns .empty
          (deedsOf steps) taken ∧
        Recorded ⟨⟨tools, Credentials.below request.keyDir, ⟨ws⟩⟩, request.keyDir⟩
          (deedsOf steps) calls ∧
        outcome.2.calls = w.calls ++ calls ∧
        ∀ summary, outcome.1 = .ok summary → taken = .ok summary := by
  rcases signTargetDir_cases around tools request w with
    ⟨plan, session, w₀, hplan, hstart⟩ | ⟨e, hrefused⟩
  · refine .inr ?_
    rcases hrun : (Orchestration.run ⟨request.targetDir⟩ plan session.ops).run.run w₀ with ⟨r, w₁⟩
    rcases signTargetDir_started around tools request hplan hstart hrun with ⟨hcalled, hended⟩
    rcases start_run around tools request.keyDir w with ⟨hstarted, hsession⟩
    rw [hstart] at hstarted hsession
    rcases hsession session rfl with ⟨fs, ws, hfresh, rfl⟩
    rcases run_recorded hrun with ⟨steps, calls, ⟨taken, htaken, hresult⟩, hrecorded, hcalls⟩
    refine ⟨fs, ws, plan, w₀, steps, calls, taken, hfresh, htaken, hrecorded, ?_, ?_⟩
    · rw [hcalled, hcalls, hstarted]
    · -- neither the end of the session nor a group that is not found lets a failed turn pass
      intro summary hok
      have hr : r = .ok summary := (Session.ending_eq_ok.1 (hended.symm.trans hok)).1
      exact Prescription.ok_of_resultOf (hresult.symm.trans hr)
  · refine .inl ?_
    rw [hrefused]
    exact ⟨rfl, e, rfl⟩

/-! ## A small boot directory -/

namespace SmallBoot

/-- The place with the given names on the way from the root. -/
def place (names : List String) : Location := (names.map Utf8.encode).reverse

/-- Keys and one bootloader, whose name is that of a candidate. -/
def files : FileSystem where
  nodes :=
    [(place ["tmp"], .directory), (place ["keys"], .directory), (place ["keys", "db"], .directory),
      (place ["keys", "db", "db.pem"], .file 0o644 []),
      (place ["keys", "db", "db.children"], .directory),
      (place ["keys", "db", "db.children", "db_child.pem"], .file 0o644 []),
      (place ["keys", "db", "db.children", "db_child.rsa"], .file 0o644 []),
      (place ["boot"], .directory), (place ["boot", "efi"], .directory),
      (place ["boot", "efi", "boot"], .directory),
      (place ["boot", "efi", "boot", "bootx64.efi"], .file 0o644 [])]
  cwd := []
  distinct := by decide +kernel
  hangs := by decide +kernel
  proper := by decide +kernel

def surroundings : Surroundings := ⟨"/tmp", [Utf8.encode "0"]⟩

def request : SignRequest := ⟨"/boot", "/keys", "*.efi"⟩

/-- Says that every bootloader is a crdyboot build, and can sign only so many times. -/
def executor (signings : Nat) : Executor Nat where
  announce _ := []
  answer call signed fs :=
    if call.program = "sbsign" then
      (.finished ⟨.exited (if signed < signings then 0 else 1), [], []⟩, signed + 1, fs)
    else if call.program = "objcopy" then
      (.finished ⟨.exited 0, [], []⟩, signed,
        Entry.orUnchanged fs (fs.write "/tmp/sign-uefi-0/sbat.csv" (Utf8.encode "sbat\ncrdyboot")))
    else (.finished ⟨.exited 0, [], []⟩, signed, fs)

/-- The run with such an executor. -/
def run (signings : Nat) : Except SignError Summary × World Nat :=
  (signTargetDir surroundings ⟨{}, executor signings⟩ request).run.run ⟨files, 0, []⟩

end SmallBoot

end BootSigning
