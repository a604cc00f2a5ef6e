import BootSigning.Proofs.Accounts
import BootSigning.Proofs.Failure
import BootSigning.Proofs.Order
import BootSigning.Proofs.Preconditions
import BootSigning.Proofs.RealPath

/-!
# FileNames — what is selected has a file name

Operations on an artifact name their files after it, and refuse a path that does not end in a name.
No run ever comes to that.  What is selected is a regular file, and the path of a regular file ends
in a name, whatever the patterns and the candidates are called.

* `Artifact.Named`: the path of an artifact ends in a name;
* `named_of_finds`: the artifacts found for a group are of that kind;
* `run_error`, `signTargetDir_error`: the errors that a run can end with.

`selected_named` says so of the four ways to select artifacts and of all runs.
-/

namespace BootSigning

variable {σ α : Type}

/-- The path of the artifact ends in a name. -/
def Artifact.Named (a : Artifact) : Prop := ∃ name, fileName a.path = .ok name

theorem fileName_eq_ok {p : Path} {name : Name} (h : p.fileName? = some name) :
    fileName p = .ok name := by
  rw [fileName, h]

/-! ## What is selected -/

/-- The turns that are found for a group are those of artifacts with file names. -/
theorem named_of_finds {layout : BootLayout} {plan : SigningPlan} {group : Group}
    {find : Attempt σ α} {turns : α → List Turn} (hgroup : group ∈ groupsOf layout plan)
    (hfind : Finds group find turns) {w : World σ} {a : α} (h : (find.run.run w).1 = .ok a) :
    ∀ turn ∈ turns a, turn.artifact.Named := by
  have hturns : group w.files = .ok (turns a) := by
    rw [← (hfind w).2, h]
    rfl
  intro turn hturn
  have hfile := isFile_of_group hgroup hturns turn hturn
  rcases FileSystem.fileName?_isSome_of_isFile hfile with ⟨name, hname⟩
  exact ⟨name, fileName_eq_ok hname⟩

section

variable (layout : BootLayout) (plan : SigningPlan) (w : World σ)

theorem bootloaders_named {found : List Artifact}
    (h : ((layout.bootloaders plan.bootloaders).run.run w).1 = .ok found) :
    ∀ a ∈ found, a.Named := by
  have hgroup : selected plan.bootloaders layout.bootloaderDir .bootloader ∈
      groupsOf layout plan := by simp [groupsOf]
  have hnamed := named_of_finds hgroup (finds_bootloaders layout _) h
  exact fun a ha => hnamed (.sign a) (List.mem_map_of_mem ha)

theorem candidates_named :
    ∀ a ∈ ((layout.crdybootCandidates plan.candidates).run w).1, a.Named := by
  have hgroup : (fun fs => .ok ((layout.candidatePaths plan.candidates fs).map fun p =>
      .treat ⟨p, .crdyboot⟩) : Group) ∈ groupsOf layout plan := by simp [groupsOf]
  have hnamed := named_of_finds hgroup (finds_candidates layout _) (w := w) rfl
  exact fun a ha => hnamed (.treat a) (List.mem_map_of_mem ha)

theorem syslinuxKernels_named {found : List Artifact}
    (h : ((layout.syslinuxKernels plan.syslinuxKernels).run.run w).1 = .ok found) :
    ∀ a ∈ found, a.Named := by
  have hgroup : selected plan.syslinuxKernels layout.syslinuxDir .syslinuxKernel ∈
      groupsOf layout plan := by simp [groupsOf]
  have hnamed := named_of_finds hgroup (finds_syslinuxKernels layout _) h
  exact fun a ha => hnamed (.sign a) (List.mem_map_of_mem ha)

theorem rootKernel_named {kernel : Artifact} (h : (layout.rootKernel?.run w).1 = some kernel) :
    kernel.Named := by
  rcases (BootLayout.rootKernel?_eq_some_iff layout w kernel).1 h with ⟨loc, hkernel, rfl⟩
  rcases FileSystem.fileName?_isSome_of_isFile hkernel.isFile with ⟨name, hname⟩
  exact ⟨name, fileName_eq_ok hname⟩

end

/-- The operations of a run are on artifacts with file names. -/
theorem steps_named (ops : ArtifactOps σ) (layout : BootLayout) (plan : SigningPlan) (w : World σ) :
    ∀ step ∈ ((Orchestration.run layout plan ops.watched).run.run w.watched).2.memory.2,
      ∃ name, fileName step.deed.artifact = .ok name := by
  have hnames := fileName?_of_asPrescribed
    (noted_taken (goes_run ops.watched layout plan w.watched)).2
  intro step hstep
  have hname := hnames step.deed (List.mem_map_of_mem hstep)
  exact hname.imp fun _ => fileName_eq_ok

/-! ## The errors of a run -/

/-- A group that cannot be found is that of a pattern that cannot be read. -/
theorem error_of_group {layout : BootLayout} {plan : SigningPlan} {group : Group}
    (hgroup : group ∈ groupsOf layout plan) {fs : FileSystem} {e : SignError}
    (h : group fs = .error e) : ∃ pattern reason, e = .invalidGlob pattern reason := by
  have hselected : ∀ {glob : ArtifactGlob} {dir : Path} {tag : ArtifactGroup},
      selected glob dir tag fs = .error e → ∃ pattern reason, e = .invalidGlob pattern reason := by
    intro glob dir tag h
    exact ⟨_, invalidGlob_of_select (selected_eq_error_iff.1 h)⟩
  simp only [groupsOf, List.mem_cons, List.not_mem_nil, or_false] at hgroup
  rcases hgroup with rfl | rfl | rfl | rfl
  · exact hselected h
  · cases h
  · exact hselected h
  · cases h

/-- Only a group that cannot be found is a fault of what is prescribed. -/
theorem group_of_fault {groups : List Group} {fs : FileSystem} {steps : List (Step σ)}
    {e : SignError} (h : (prescribe groups fs steps).fault = some e) :
    ∃ group ∈ groups, ∃ fs', group fs' = .error e := by
  induction groups generalizing fs steps with
  | nil => cases h
  | cons group groups ih =>
    rw [prescribe] at h
    cases hturns : group fs with
    | error fault =>
      rw [hturns] at h
      cases h
      exact ⟨group, List.mem_cons_self, fs, hturns⟩
    | ok turns =>
      rw [hturns] at h
      rcases ih h with ⟨other, hother, hfault⟩
      exact ⟨other, List.mem_cons_of_mem group hother, hfault⟩

/-- Working through a boot directory fails for a fatal call or an unreadable pattern only. -/
theorem run_error {session : Session σ} {layout : BootLayout} {plan : SigningPlan}
    {w w' : World σ} {e : SignError}
    (hrun : (Orchestration.run layout plan session.ops).run.run w = (.error e, w')) :
    (∃ call : Call, call.FailsAs e) ∨ ∃ pattern reason, e = .invalidGlob pattern reason := by
  rcases run_recorded hrun with ⟨steps, calls, hprescribed, hrecorded, -⟩
  have hnames := fileName?_of_asPrescribed hprescribed
  rcases hprescribed with ⟨taken, htaken, hresult⟩
  cases taken with
  | error e' =>
    -- a turn failed, and its last call is the reason, as it was on a path with a file name
    have hsame : e = e' := Except.error.inj hresult
    rcases recorded_endsWith htaken hnames hrecorded with ⟨before, last, -, -, hlast⟩
    exact .inl ⟨last, hsame ▸ hlast⟩
  | ok summary =>
    have hfault : (prescribe (groupsOf layout plan) w.files steps).fault = some e := by
      have herror := (prescribe (groupsOf layout plan) w.files steps).errorOf_resultOf (.ok summary)
      rw [← hresult] at herror
      exact herror.symm
    rcases group_of_fault hfault with ⟨group, hgroup, fs, hnone⟩
    exact .inr (error_of_group hgroup hnone)

section

variable (environment : Environment) (around : Surroundings) (tools : Tools σ)
  (request : SignRequest)

/-- A session that does not open has a precondition that does not hold. -/
theorem precondition_of_start {w w' : World σ} {e : SignError}
    (h : (Session.start around tools request.keyDir).run.run w = (.error e, w')) :
    ∃ condition : Precondition, condition.fault? environment around request w.files = some e := by
  have hguarded := guarded_start environment around tools request w
  cases hfault : (CredentialKind.all.map Precondition.credential ++
      [Precondition.workspace]).findSome?
        (Precondition.fault? environment around request w.files) with
  | none =>
    rw [hfault] at hguarded
    rcases hguarded with ⟨session, w', hopened⟩
    cases h.symm.trans hopened
  | some fault =>
    rw [hfault] at hguarded
    cases h.symm.trans hguarded
    rcases List.exists_of_findSome?_eq_some hfault with ⟨condition, -, hcondition⟩
    exact ⟨condition, hcondition⟩

/-- A run fails for a precondition, as its session does, or for a workspace that stays. -/
theorem signTargetDir_error {w : World σ} {e : SignError}
    (h : ((signTargetDir around tools request).run.run w).1 = .error e) :
    (∃ condition : Precondition, condition.fault? environment around request w.files = some e) ∨
      (∃ call : Call, call.FailsAs e) ∨ (∃ pattern reason, e = .invalidGlob pattern reason) ∨
      ∃ fault, e = .io fault := by
  cases hplan : SigningPlan.ofPattern request.bootloaders with
  | error e' =>
    have hsame : e' = e := by
      simp only [signTargetDir, hplan] at h
      exact Except.error.inj h
    have hfault := faultOf?_plan environment around request w.files
    rw [hplan, hsame] at hfault
    exact .inl ⟨.pattern, hfault.symm⟩
  | ok plan =>
    rcases hstart : (Session.start around tools request.keyDir).run.run w with ⟨e' | session, w₀⟩
    · have hsame : e' = e := by
        simp only [signTargetDir, hplan, orFail, pure_bind] at h
        rw [run_bind, hstart] at h
        exact Except.error.inj h
      exact .inl (precondition_of_start environment around tools request (hsame ▸ hstart))
    · rcases hrun : (Orchestration.run ⟨request.targetDir⟩ plan session.ops).run.run w₀ with
        ⟨r, w₁⟩
      have hended := (signTargetDir_started around tools request hplan hstart hrun).2
      -- a session that fails is dropped; only one that succeeds can fail to remove its workspace
      cases r with
      | error e' =>
        cases hended.symm.trans h
        exact .inr ((run_error hrun).imp_right .inl)
      | ok summary =>
        rcases Session.ending_eq_error.1 (hended.symm.trans h) with ⟨fault, -, rfl⟩
        exact .inr (.inr (.inr ⟨_, rfl⟩))

end

/-! ## No run is about a missing name -/

theorem Call.FailsAs.names {call : Call} {e : SignError} (h : call.FailsAs e) (p : Path) :
    e ≠ .invalidArtifactPath p := by
  rcases h with ⟨failure, text, hfailure, -, rfl⟩
  rcases call with ⟨command, reply⟩
  cases command with
  | privilegedCopy source dest force =>
    cases force <;> cases hfailure <;> exact nofun
  | updateSection | verify =>
    cases hfailure
    exact nofun
  | dumpSection | stripSignature | sign => cases hfailure

theorem Precondition.names {environment : Environment} {around : Surroundings}
    {request : SignRequest} {fs : FileSystem} {condition : Precondition} {e : SignError}
    (h : condition.fault? environment around request fs = some e) (p : Path) :
    e ≠ .invalidArtifactPath p := by
  rintro rfl
  cases condition <;> simp only [fault?, workspaceFault?] at h <;> split at h <;>
    simp at h

theorem run_names (session : Session σ) (layout : BootLayout) (plan : SigningPlan) (w : World σ)
    (p : Path) :
    ((Orchestration.run layout plan session.ops).run.run w).1 ≠
      .error (.invalidArtifactPath p) := by
  intro h
  rcases hrun : (Orchestration.run layout plan session.ops).run.run w with ⟨r, w'⟩
  rw [hrun] at h
  cases h
  rcases run_error hrun with ⟨call, hfails⟩ | ⟨pattern, reason, he⟩
  · exact hfails.names p rfl
  · cases he

theorem signTargetDir_names (around : Surroundings) (tools : Tools σ) (request : SignRequest)
    (w : World σ) (p : Path) :
    ((signTargetDir around tools request).run.run w).1 ≠ .error (.invalidArtifactPath p) := by
  intro h
  rcases signTargetDir_error ⟨[], "/", none⟩ around tools request h with
    ⟨condition, hfault⟩ | ⟨call, hfails⟩ | ⟨pattern, reason, he⟩ | ⟨fault, he⟩
  · exact condition.names hfault p rfl
  · exact hfails.names p rfl
  · cases he
  · cases he

open Orchestration in
/--
Every artifact that is selected has a path that ends in a name, whatever the files, the patterns
and the names of candidates are.  So a run calls its operations for such artifacts only, and neither
a session that works through a boot directory nor a whole run ends for want of a file name,
whatever the tools answer and do to the files.
-/
theorem selected_named (layout : BootLayout) (plan : SigningPlan) (w : World σ) :
    (∀ found, ((layout.bootloaders plan.bootloaders).run.run w).1 = .ok found →
        ∀ a ∈ found, a.Named) ∧
      (∀ a ∈ ((layout.crdybootCandidates plan.candidates).run w).1, a.Named) ∧
      (∀ found, ((layout.syslinuxKernels plan.syslinuxKernels).run.run w).1 = .ok found →
        ∀ a ∈ found, a.Named) ∧
      (∀ kernel, (layout.rootKernel?.run w).1 = some kernel → kernel.Named) ∧
      (∀ ops : ArtifactOps σ,
        let outcome := (run layout plan ops.watched).run.run w.watched
        (run layout plan ops).run.run w = (outcome.1, outcome.2.bare) ∧
          ∀ step ∈ outcome.2.memory.2, ∃ name, fileName step.deed.artifact = .ok name) ∧
      (∀ (session : Session σ) (p : Path),
        ((run layout plan session.ops).run.run w).1 ≠ .error (.invalidArtifactPath p)) ∧
      ∀ (around : Surroundings) (tools : Tools σ) (request : SignRequest) (p : Path),
        ((signTargetDir around tools request).run.run w).1 ≠ .error (.invalidArtifactPath p) := by
  refine ⟨fun _ => bootloaders_named layout plan w, candidates_named layout plan w,
    fun _ => syslinuxKernels_named layout plan w, fun _ => rootKernel_named layout w, ?_,
    fun session p => run_names session layout plan w p,
    fun around tools request p => signTargetDir_names around tools request w p⟩
  exact fun ops => ⟨mirrors_run ops layout plan w.watched, steps_named ops layout plan w⟩

namespace SmallBoot

/-- Patterns and names that lead up, stay where they are, or go on past a file. -/
def oddPlan : SigningPlan where
  bootloaders := ⟨".*", by decide +kernel⟩
  syslinuxKernels := ⟨"..", by decide +kernel⟩
  candidates :=
    ["..", "missing/..", "", ".", "/", "bootx64.efi/", "bootx64.efi/.", "./bootx64.efi"].map
      Path.ofString

end SmallBoot

/-- Only the last of the candidates is a file, and it has a name; the run does nothing else. -/
theorem selected_named_small :
    let w : World (List OpCall) := ⟨SmallBoot.files, [], []⟩
    let loader : Path := "/boot/efi/boot/./bootx64.efi"
    let found := ((BootLayout.crdybootCandidates ⟨"/boot"⟩ SmallBoot.oddPlan.candidates).run w).1
    let steps := ((Orchestration.run ⟨"/boot"⟩ SmallBoot.oddPlan
      SmallBoot.rehearsal.ops.watched).run.run w.watched).2.memory.2
    (found = [⟨loader, .crdyboot⟩] ∧ ∀ a ∈ found, a.Named) ∧
      steps.map (·.deed.artifact) = List.replicate 3 loader ∧
      ∀ step ∈ steps, ∃ name, fileName step.deed.artifact = .ok name := by
  intro w loader found steps
  have hfound : found = [⟨loader, .crdyboot⟩] := by decide +kernel
  have hsteps : steps.map (·.deed.artifact) = List.replicate 3 loader := by decide +kernel
  rcases selected_named ⟨"/boot"⟩ SmallBoot.oddPlan w with ⟨-, hcandidates, -, -, hruns, -⟩
  exact ⟨⟨hfound, hcandidates⟩, hsteps, (hruns SmallBoot.rehearsal.ops).2⟩

end BootSigning
