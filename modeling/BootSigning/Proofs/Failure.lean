import BootSigning.Proofs.Escape
import BootSigning.Proofs.Runs

/-!
# Failure — which calls end a run

Some calls may fail without harm: a section that cannot be extracted, a signature that cannot be
removed, a file that cannot be signed.  The others are fatal.

* `Command.failure?`, `Call.Fatal`: the commands that must not fail, and their errors;
* `EndsWith`: calls of which none but the last is fatal;
* `run_fails_iff`: a run fails because of a fatal call or because its workspace stays.
-/

namespace BootSigning

variable {σ : Type}

/-! ## Fatal calls -/

/-- The error that a failure of the command ends a run with, by the text of the failure. -/
def Command.failure? : Command → Option (String → SignError)
  | .updateSection artifact _ _ _ => some (.injectionFailed artifact .updateSection)
  | .privilegedCopy _ artifact false => some (.injectionFailed artifact .copy)
  | .privilegedCopy _ artifact true => some (.installFailed artifact)
  | .verify _ artifact => some (.verificationFailed artifact)
  | .dumpSection .. | .stripSignature _ | .sign .. => none

/-- A call that must not fail did not succeed. -/
def Call.Fatal (call : Call) : Prop :=
  call.command.failure?.isSome = true ∧ call.reply.succeeded = false

/-- The call must not fail, but did, and that is the error. -/
def Call.FailsAs (call : Call) (e : SignError) : Prop :=
  ∃ failure text, call.command.failure? = some failure ∧ call.reply.check = .error text ∧
    e = failure text

theorem Call.FailsAs.fatal {call : Call} {e : SignError} (h : call.FailsAs e) : call.Fatal := by
  rcases h with ⟨failure, text, hfailure, hcheck, _⟩
  exact ⟨by rw [hfailure]; rfl, Reply.not_succeeded_of_check hcheck⟩

theorem not_fatal_of_succeeded {call : Call} (h : call.reply.succeeded = true) : ¬call.Fatal := by
  intro hfatal
  rw [hfatal.2] at h
  cases h

theorem not_fatal_of_tolerated {call : Call} (h : call.command.failure? = none) : ¬call.Fatal := by
  intro hfatal
  have hsome := hfatal.1
  rw [h] at hsome
  cases hsome

/-- No call is fatal, if there is no error; else the last one is, with that error, and no other. -/
def EndsWith : Option SignError → List Call → Prop
  | none, calls => ∀ call ∈ calls, ¬call.Fatal
  | some e, calls => ∃ before last, calls = before ++ [last] ∧ (∀ call ∈ before, ¬call.Fatal) ∧
      last.FailsAs e

theorem EndsWith.nil : EndsWith none [] := fun _ h => absurd h List.not_mem_nil

theorem EndsWith.append {error? : Option SignError} {calls more : List Call}
    (h : EndsWith none calls) (hmore : EndsWith error? more) : EndsWith error? (calls ++ more) := by
  cases error? with
  | none => exact List.forall_mem_append.2 ⟨h, hmore⟩
  | some e =>
    rcases hmore with ⟨before, last, rfl, hbefore, hlast⟩
    exact ⟨calls ++ before, last, (List.append_assoc _ _ _).symm,
      List.forall_mem_append.2 ⟨h, hbefore⟩, hlast⟩

theorem EndsWith.cons {error? : Option SignError} {call : Call} {calls : List Call}
    (h : ¬call.Fatal) (hcalls : EndsWith error? calls) : EndsWith error? (call :: calls) := by
  have hcall : EndsWith none [call] := List.forall_mem_singleton.2 h
  exact hcall.append hcalls

theorem EndsWith.last {call : Call} {e : SignError} (h : call.FailsAs e) :
    EndsWith (some e) [call] :=
  ⟨[], call, rfl, EndsWith.nil, h⟩

/-- A fatal call among calls that end with an error is the last one. -/
theorem EndsWith.split {e : SignError} {before after : List Call} {call : Call}
    (h : EndsWith (some e) (before ++ call :: after)) (hfatal : call.Fatal) :
    after = [] ∧ (∀ earlier ∈ before, ¬earlier.Fatal) ∧ call.FailsAs e := by
  rcases h with ⟨first, last, hsplit, hfirst, hlast⟩
  rcases List.append_eq_append_iff.1 hsplit with ⟨rest, hbefore, hrest⟩ | ⟨rest, hbefore, hrest⟩
  · cases rest with
    | nil =>
      cases hrest
      rw [List.append_nil] at hbefore
      exact ⟨rfl, hbefore ▸ hfirst, hlast⟩
    | cons c rest =>
      -- the call would stand before the last one
      cases hrest
      have hmem : call ∈ first := by simp [hbefore]
      exact absurd hfatal (hfirst call hmem)
  · cases rest with
    | nil =>
      cases hrest
      rw [List.append_nil] at hbefore
      exact ⟨rfl, hbefore ▸ hfirst, hlast⟩
    | cons c rest => simp at hrest

/-! ## The calls of a deed -/

section

variable {session : Session σ} {p : Path} {name : Name} {calls : List Call}

theorem install_endsWith {copy : Path} {r : Except SignError Outcome}
    (h : InstallCalls session.signer copy p calls r) : EndsWith (errorOf r) calls := by
  cases h with
  | notInstalled hcopy => exact .last ⟨_, _, rfl, hcopy, rfl⟩
  | notVerified hcopy hcheck =>
    exact .cons (not_fatal_of_succeeded hcopy) (.last ⟨_, _, rfl, hcheck, rfl⟩)
  | signed hcopy hcheck =>
    have hend : EndsWith none [⟨session.signer.checking p, _⟩] :=
      List.forall_mem_singleton.2 (not_fatal_of_succeeded hcheck)
    exact .cons (not_fatal_of_succeeded hcopy) hend

theorem sign_endsWith {r : Except SignError Outcome} (hname : p.fileName? = some name)
    (h : SignCalls session.signer p calls r) : EndsWith (errorOf r) calls := by
  cases h with
  | nameless hnone =>
    rw [hnone] at hname
    cases hname
  | skipped =>
    exact .cons (not_fatal_of_tolerated rfl) (.cons (not_fatal_of_tolerated rfl) .nil)
  | installed _ hmade hinstall =>
    have hend := install_endsWith hinstall
    exact .cons (not_fatal_of_tolerated rfl) (.cons (not_fatal_of_tolerated rfl) hend)

theorem inject_endsWith {keyDir ws : Path} {r : Except SignError Unit}
    (hname : p.fileName? = some name) (h : InjectCalls keyDir ws p calls r) :
    EndsWith (errorOf r) calls := by
  cases h with
  | nameless hnone =>
    rw [hnone] at hname
    cases hname
  | notUpdated _ hupdate => exact .last ⟨_, _, rfl, hupdate, rfl⟩
  | @updated _ _ copied _ _ hupdate hresult =>
    refine .cons (not_fatal_of_succeeded hupdate) ?_
    cases hcopy : copied.check with
    | error text =>
      rw [hresult, hcopy]
      exact .last ⟨_, _, rfl, hcopy, rfl⟩
    | ok =>
      have hcopied := Reply.succeeded_of_check hcopy
      rw [hresult, hcopy]
      exact List.forall_mem_singleton.2 (not_fatal_of_succeeded hcopied)

theorem classify_endsWith {ws : Path} {verdict : Bool} (h : ClassifyCalls ws p calls verdict) :
    EndsWith none calls := by
  cases h with
  | nameless => exact .nil
  | dumped => exact List.forall_mem_singleton.2 (not_fatal_of_tolerated rfl)

/-- The calls of a deed end with its error. -/
theorem deed_endsWith {deed : Deed} (hname : deed.artifact.fileName? = some name)
    (h : DeedCalls session deed calls) : EndsWith deed.error? calls := by
  cases deed with
  | classified => exact classify_endsWith h
  | injected => exact inject_endsWith hname h
  | signed => exact sign_endsWith hname h

end

/-- The calls of all deeds end with the error of the last deed, if that failed. -/
theorem recorded_endsWith {session : Session σ} {turns : List Turn} {s : Summary}
    {deeds : List Deed} {r : Except SignError Summary} {calls : List Call}
    (htaken : Taken turns s deeds r)
    (hnames : ∀ deed ∈ deeds, ∃ name, deed.artifact.fileName? = some name)
    (hrecorded : Recorded session deeds calls) : EndsWith (errorOf r) calls := by
  have hdeed : ∀ {deed : Deed} {calls : List Call}, (∃ name, deed.artifact.fileName? = some name) →
      DeedCalls session deed calls → EndsWith deed.error? calls := fun hname h => by
    rcases hname with ⟨name, hname⟩
    exact deed_endsWith hname h
  induction htaken generalizing calls with
  | done =>
    cases hrecorded
    exact .nil
  | signed _ ih | other _ ih =>
    rcases hrecorded with _ | ⟨hfirst, hrest⟩
    rcases List.forall_mem_cons.1 hnames with ⟨hname, hnames⟩
    exact (hdeed hname hfirst).append (ih hnames hrest)
  | notSigned =>
    rcases hrecorded with _ | ⟨hfirst, _ | _⟩
    rw [List.append_nil]
    exact hdeed (hnames _ List.mem_cons_self) hfirst
  | notInjected =>
    rcases hrecorded with _ | ⟨hfirst, _ | ⟨hsecond, _ | _⟩⟩
    rcases List.forall_mem_cons.1 hnames with ⟨hname, hnames⟩
    rw [List.append_nil]
    exact (hdeed hname hfirst).append (hdeed (hnames _ List.mem_cons_self) hsecond)
  | treated _ ih =>
    rcases hrecorded with _ | ⟨hfirst, _ | ⟨hsecond, hrest⟩⟩
    rcases List.forall_mem_cons.1 hnames with ⟨hname, hnames⟩
    rcases List.forall_mem_cons.1 hnames with ⟨hname', hnames⟩
    have hlater := (hdeed hname' hsecond).append (ih hnames hrest)
    exact (hdeed hname hfirst).append hlater

/-! ## Runs that fail -/

theorem prescribe_fault_cons {group : Group} {groups : List Group} {fs : FileSystem}
    (hgroup : ∃ turns, group fs = .ok turns)
    (hrest : ∀ fs (steps : List (Step σ)), (prescribe groups fs steps).fault = none)
    (steps : List (Step σ)) : (prescribe (group :: groups) fs steps).fault = none := by
  rcases hgroup with ⟨turns, hturns⟩
  rw [prescribe, hturns]
  exact hrest _ _

/-- Where every group can be found, no fault is prescribed. -/
theorem prescribe_fault {groups : List Group}
    (h : ∀ group ∈ groups, ∀ fs, ∃ turns, group fs = .ok turns) (fs : FileSystem)
    (steps : List (Step σ)) : (prescribe groups fs steps).fault = none := by
  induction groups generalizing fs steps with
  | nil => rfl
  | cons group groups ih =>
    rcases List.forall_mem_cons.1 h with ⟨hgroup, hgroups⟩
    exact prescribe_fault_cons (hgroup fs) (ih hgroups) steps

/-- Once the bootloaders of a well-formed plan were found, every other group will be. -/
theorem no_fault {pattern : String} {plan : SigningPlan} {layout : BootLayout} {fs : FileSystem}
    {selection : Selection} (hplan : SigningPlan.ofPattern pattern = .ok plan)
    (hselect : plan.bootloaders.select fs layout.bootloaderDir = .ok selection)
    (steps : List (Step σ)) : (prescribe (groupsOf layout plan) fs steps).fault = none := by
  -- Candidates and the root kernel are always found, and the syslinux pattern is simple.
  refine prescribe_fault_cons (selected_isOk_iff.2 ⟨selection, hselect⟩) (prescribe_fault ?_)
    steps
  intro group hgroup fs'
  simp only [List.mem_cons, List.not_mem_nil, or_false] at hgroup
  rcases hgroup with rfl | rfl | rfl
  · exact ⟨_, rfl⟩
  · exact selected_isOk_iff.2 (SigningPlan.select_syslinuxKernels hplan fs' _)
  · exact ⟨_, rfl⟩

/-- Working through a boot directory makes calls that end with its error. -/
theorem run_endsWith {pattern : String} {plan : SigningPlan} {layout : BootLayout}
    {w w' : World σ} {selection : Selection} {session : Session σ}
    {r : Except SignError Summary} (hplan : SigningPlan.ofPattern pattern = .ok plan)
    (hselect : plan.bootloaders.select w.files layout.bootloaderDir = .ok selection)
    (hrun : (Orchestration.run layout plan session.ops).run.run w = (r, w')) :
    ∃ calls, w'.calls = w.calls ++ calls ∧ EndsWith (errorOf r) calls := by
  rcases run_recorded hrun with ⟨steps, calls, hprescribed, hrecorded, hcalls⟩
  -- every artifact was a regular file when it was found, and so its path ends in a name
  have hnames := fileName?_of_asPrescribed hprescribed
  rcases hprescribed with ⟨taken, htaken, hresult⟩
  have hend := recorded_endsWith htaken hnames hrecorded
  have herror : errorOf r = errorOf taken := by
    rw [hresult, Prescription.errorOf_resultOf, no_fault hplan hselect, Option.or_none]
  rw [← herror] at hend
  exact ⟨calls, hcalls, hend⟩

/--
Once its session is open and its bootloaders are found, a run fails exactly if a fatal call failed
or the workspace cannot be removed.  A fatal call that failed is the last call and the only one of
its kind, and the run fails with its error; without one, the error is that of the removal.
-/
theorem run_fails_iff (around : Surroundings) (tools : Tools σ) (request : SignRequest)
    {plan : SigningPlan} {session : Session σ} {w w₀ : World σ} {selection : Selection}
    (hplan : SigningPlan.ofPattern request.bootloaders = .ok plan)
    (hstart : (Session.start around tools request.keyDir).run.run w = (.ok session, w₀))
    (hselect : plan.bootloaders.select w₀.files (BootLayout.bootloaderDir ⟨request.targetDir⟩) =
      .ok selection) :
    let outcome := (signTargetDir around tools request).run.run w
    let worked := ((Orchestration.run ⟨request.targetDir⟩ plan session.ops).run.run w₀).2
    let removed := worked.files.removeDirectory session.signer.workspace.path
    ∃ calls, outcome.2.calls = w.calls ++ calls ∧
      ((∃ e, outcome.1 = .error e) ↔
        (∃ call ∈ calls, call.Fatal) ∨ ∃ fault, removed.fault = some fault) ∧
      (∀ before call after, calls = before ++ call :: after → call.Fatal →
        after = [] ∧ (∀ earlier ∈ before, ¬earlier.Fatal) ∧
          ∃ e, call.FailsAs e ∧ outcome.1 = .error e) ∧
      (∀ e, outcome.1 = .error e → (∀ call ∈ calls, ¬call.Fatal) →
        ∃ fault, removed.fault = some fault ∧
          e = .io (.atPath fault session.signer.workspace.path)) := by
  intro outcome worked removed
  -- The calls of the run are those of working through the artifacts; the rest calls nothing.
  rcases hrun : (Orchestration.run ⟨request.targetDir⟩ plan session.ops).run.run w₀ with ⟨r, w₁⟩
  have hworked : worked = w₁ := congrArg Prod.snd hrun
  rcases run_endsWith hplan hselect hrun with ⟨calls, hcalls, hend⟩
  rcases signTargetDir_started around tools request hplan hstart hrun with ⟨houtcome, hresult⟩
  have hstarted := (start_run around tools request.keyDir w).1
  rw [hstart] at hstarted
  refine ⟨calls, ?_, ?_⟩
  · calc outcome.2.calls = w₁.calls := houtcome
      _ = w₀.calls ++ calls := hcalls
      _ = w.calls ++ calls := by rw [hstarted]
  cases r with
  | error e =>
    -- an artifact failed: the last call is fatal and the run ends with its error
    have herror : outcome.1 = .error e := hresult
    have hfatal : ∃ call ∈ calls, call.Fatal := by
      rcases hend with ⟨before, last, rfl, _, hlast⟩
      exact ⟨last, List.mem_append_right before List.mem_cons_self, hlast.fatal⟩
    refine ⟨⟨fun _ => .inl hfatal, fun _ => ⟨e, herror⟩⟩, ?_, ?_⟩
    · rintro before call after rfl hcall
      rcases EndsWith.split hend hcall with ⟨hafter, hbefore, hfails⟩
      exact ⟨hafter, hbefore, e, hfails, herror⟩
    · intro e' _ hnone
      rcases hfatal with ⟨call, hmem, hcall⟩
      exact absurd hcall (hnone call hmem)
  | ok summary =>
    -- none did: only the removal of the workspace is left to fail
    have hnone : ∀ call ∈ calls, ¬call.Fatal := hend
    have hending : outcome.1 = session.ending worked (.ok summary) := by rw [hworked]; exact hresult
    have hfails : ∀ e, outcome.1 = .error e ↔ ∃ fault, removed.fault = some fault ∧
        e = .io (.atPath fault session.signer.workspace.path) := by
      intro e
      rw [hending]
      exact Session.ending_eq_error
    refine ⟨⟨?_, ?_⟩, ?_, fun e he _ => (hfails e).1 he⟩
    · rintro ⟨e, he⟩
      rcases (hfails e).1 he with ⟨fault, hremoved, _⟩
      exact .inr ⟨fault, hremoved⟩
    · rintro (⟨call, hmem, hcall⟩ | ⟨fault, hremoved⟩)
      · exact absurd hcall (hnone call hmem)
      · exact ⟨_, (hfails _).2 ⟨fault, hremoved, rfl⟩⟩
    · rintro before call after rfl hcall
      exact absurd hcall (hnone call (by simp))

theorem run_fails_iff_small :
    ∃ plan session w₀ selection,
      SigningPlan.ofPattern SmallBoot.request.bootloaders = .ok plan ∧
      (Session.start SmallBoot.surroundings ⟨{}, SmallBoot.executor 2⟩
        SmallBoot.request.keyDir).run.run ⟨SmallBoot.files, 0, []⟩ = (.ok session, w₀) ∧
      plan.bootloaders.select w₀.files
        (BootLayout.bootloaderDir ⟨SmallBoot.request.targetDir⟩) = .ok selection ∧
      ∃ calls, (SmallBoot.run 2).2.calls = calls ∧
        ((∃ e, (SmallBoot.run 2).1 = .error e) ↔
          (∃ call ∈ calls, call.Fatal) ∨ ∃ fault,
            (((Orchestration.run ⟨SmallBoot.request.targetDir⟩ plan session.ops).run.run
              w₀).2.files.removeDirectory session.signer.workspace.path).fault = some fault) := by
  have hplans : (SigningPlan.ofPattern SmallBoot.request.bootloaders).isOk = true := by
    decide +kernel
  let started := (Session.start SmallBoot.surroundings ⟨{}, SmallBoot.executor 2⟩
    SmallBoot.request.keyDir).run.run ⟨SmallBoot.files, 0, []⟩
  have hstarts : started.1.isOk = true := by decide +kernel
  have hselects : (match SigningPlan.ofPattern SmallBoot.request.bootloaders with
      | .ok plan => (plan.bootloaders.select started.2.files
          (BootLayout.bootloaderDir ⟨SmallBoot.request.targetDir⟩)).isOk
      | .error _ => true) = true := by decide +kernel
  cases hplan : SigningPlan.ofPattern SmallBoot.request.bootloaders with
  | error e => simp [hplan, Except.isOk, Except.toBool] at hplans
  | ok plan =>
    rcases hstart : started with ⟨_ | session, w₀⟩
    · simp [hstart, Except.isOk, Except.toBool] at hstarts
    · simp only [hplan, hstart] at hselects
      cases hselect : plan.bootloaders.select w₀.files
          (BootLayout.bootloaderDir ⟨SmallBoot.request.targetDir⟩) with
      | error e => simp [hselect, Except.isOk, Except.toBool] at hselects
      | ok selection =>
        rcases run_fails_iff SmallBoot.surroundings ⟨{}, SmallBoot.executor 2⟩ SmallBoot.request
          hplan hstart hselect with ⟨calls, hcalls, hfails, _⟩
        exact ⟨plan, session, w₀, selection, rfl, hstart, hselect, calls, hcalls, hfails⟩

end BootSigning
