import BootSigning.Proofs.History
import BootSigning.Proofs.Lookup
import BootSigning.Proofs.Turns

/-!
# Course — how a run calls its operations

Whatever the operations do, a run calls them one after another and only logs in between.

* `Step`, `Course`: an operation called in one world and answered in another, and runs of these;
* `Goes`: an attempt whose course fits its result;
* `groupsOf`, `prescribe`: the turns of a run, group after group, each group found among the files
  as the steps before it left them.

`goes_run` says that the course of `Orchestration.run` is the one prescribed.
-/

namespace BootSigning

variable {σ α β : Type}

/-! ## Courses -/

/-- One call of an operation, with the worlds before and after it. -/
structure Step (σ : Type) where
  before : World σ
  deed : Deed
  after : World σ

/-- The operation, called in the world before, answers and leaves what the step says. -/
def Step.IsOf (ops : ArtifactOps σ) (step : Step σ) : Prop :=
  match step.deed with
  | .classified p verdict => (ops.classify p).run step.before = (verdict, step.after)
  | .injected p r => (ops.inject p).run.run step.before = (r, step.after)
  | .signed p r => (ops.sign p).run.run step.before = (r, step.after)

/-- From one world to another by calls of operations, with nothing but logging in between. -/
inductive Course (ops : ArtifactOps σ) : World σ → List (Step σ) → World σ → Prop where
  | quiet {w w' : World σ} (hquiet : Quiet w w') : Course ops w [] w'
  | step {w w' : World σ} {step : Step σ} {steps : List (Step σ)} (hquiet : Quiet w step.before)
      (hstep : step.IsOf ops) (hrest : Course ops step.after steps w') :
      Course ops w (step :: steps) w'

/-- The deeds of steps. -/
def deedsOf (steps : List (Step σ)) : List Deed := steps.map Step.deed

/-- The files after steps that start among given ones. -/
def filesAfter (fs : FileSystem) (steps : List (Step σ)) : FileSystem :=
  match steps.getLast? with
  | some step => step.after.files
  | none => fs

namespace Course

variable {ops : ArtifactOps σ} {w w₁ w₂ w' : World σ} {steps steps' : List (Step σ)}

theorem after_quiet (hquiet : Quiet w w₁) (h : Course ops w₁ steps w') :
    Course ops w steps w' := by
  cases h with
  | quiet hend => exact .quiet (hquiet.trans hend)
  | step hfirst hstep hrest => exact .step (hquiet.trans hfirst) hstep hrest

theorem append (h : Course ops w steps w₁) (h' : Course ops w₁ steps' w') :
    Course ops w (steps ++ steps') w' := by
  induction h with
  | quiet hquiet => exact h'.after_quiet hquiet
  | step hquiet hstep _ ih => exact .step hquiet hstep (ih h')

theorem one {step : Step σ} (hquiet : Quiet w step.before) (hstep : step.IsOf ops) :
    Course ops w [step] step.after :=
  .step hquiet hstep (.quiet (Quiet.refl _))

/-- Between steps the files stay as they are. -/
theorem files_eq (h : Course ops w steps w') : w'.files = filesAfter w.files steps := by
  induction h with
  | quiet hquiet => exact hquiet.files
  | @step w w' step steps _ _ _ ih =>
    cases steps with
    | nil => exact ih
    | cons next rest =>
      -- the last step is the same, with or without the first
      rw [ih, filesAfter, filesAfter, List.getLast?_cons_cons]
      cases hlast : (next :: rest).getLast? with
      | none => simp at hlast
      | some last => rfl

theorem isOf (h : Course ops w steps w') : ∀ step ∈ steps, step.IsOf ops := by
  induction h with
  | quiet => exact nofun
  | step _ hstep _ ih => exact List.forall_mem_cons.2 ⟨hstep, ih⟩

end Course

/-! ## Attempts and their courses -/

/-- Started in `w`, the attempt has a course that fits its result as `P` says. -/
def Goes (ops : ArtifactOps σ) (w : World σ) (x : Attempt σ α)
    (P : List (Step σ) → Except SignError α → Prop) : Prop :=
  ∃ steps, Course ops w steps (x.run.run w).2 ∧ P steps (x.run.run w).1

namespace Goes

variable {ops : ArtifactOps σ} {w : World σ} {P : List (Step σ) → Except SignError α → Prop}
  {Q : List (Step σ) → Except SignError β → Prop}

theorem mono {x : Attempt σ α} {P' : List (Step σ) → Except SignError α → Prop}
    (h : Goes ops w x P) (hP : ∀ steps r, P steps r → P' steps r) : Goes ops w x P' := by
  rcases h with ⟨steps, hcourse, hr⟩
  exact ⟨steps, hcourse, hP steps _ hr⟩

theorem pure {a : α} (h : P [] (.ok a)) : Goes ops w (Pure.pure a) P :=
  ⟨[], .quiet (Quiet.refl w), h⟩

theorem throw {e : SignError} (h : P [] (.error e)) : Goes ops w (throw e) P :=
  ⟨[], .quiet (Quiet.refl w), h⟩

theorem bind {x : Attempt σ α} {f : α → Attempt σ β} (h : Goes ops w x P)
    (hok : ∀ steps a w', Course ops w steps w' → P steps (.ok a) →
      Goes ops w' (f a) fun more r => Q (steps ++ more) r)
    (herror : ∀ steps e, P steps (.error e) → Q steps (.error e)) : Goes ops w (x >>= f) Q := by
  rcases h with ⟨steps, hcourse, hP⟩
  rw [Goes, run_bind]
  rcases hrun : x.run.run w with ⟨result, w'⟩
  rw [hrun] at hcourse hP
  cases result with
  | error e => exact ⟨steps, hcourse, herror steps e hP⟩
  | ok a =>
    rcases hok steps a w' hcourse hP with ⟨more, hmore, hQ⟩
    exact ⟨steps ++ more, hcourse.append hmore, hQ⟩

/-- What only logs at its start has the course of what follows. -/
theorem after_quiet {x : Action σ α} {f : α → Attempt σ β} (hquiet : Quiet w (x.run w).2)
    (h : Goes ops (x.run w).2 (f (x.run w).1) Q) : Goes ops w ((x : Attempt σ α) >>= f) Q := by
  rcases h with ⟨steps, hcourse, hQ⟩
  exact ⟨steps, hcourse.after_quiet hquiet, hQ⟩

theorem classified {f : Bool → Attempt σ β} (p : Path)
    (h : ∀ step : Step σ, ∀ verdict, step.deed = .classified p verdict →
      Goes ops step.after (f verdict) fun more r => Q (step :: more) r) :
    Goes ops w ((ops.classify p : Attempt σ Bool) >>= f) Q := by
  let step : Step σ :=
    ⟨w, .classified p ((ops.classify p).run w).1, ((ops.classify p).run w).2⟩
  rcases h step _ rfl with ⟨steps, hcourse, hQ⟩
  exact ⟨step :: steps, .step (Quiet.refl w) rfl hcourse, hQ⟩

theorem injected (p : Path) :
    Goes ops w (ops.inject p) fun steps r => deedsOf steps = [.injected p r] :=
  ⟨[⟨w, .injected p ((ops.inject p).run.run w).1, ((ops.inject p).run.run w).2⟩],
    .one (Quiet.refl w) rfl, rfl⟩

theorem signed (p : Path) :
    Goes ops w (ops.sign p) fun steps r => deedsOf steps = [.signed p r] :=
  ⟨[⟨w, .signed p ((ops.sign p).run.run w).1, ((ops.sign p).run.run w).2⟩],
    .one (Quiet.refl w) rfl, rfl⟩

end Goes

/-! ## One group of artifacts -/

section

variable (ops : ArtifactOps σ) (w : World σ) (s : Summary)

open Orchestration

variable {ops w s} in
/-- One turn, then the others. -/
theorem goes_turns {turn : Turn} {turns : List Turn} {x : Attempt σ Summary}
    {f : Summary → Attempt σ Summary}
    (h : Goes ops w x fun steps r => Taken [turn] s (deedsOf steps) r)
    (hrest : ∀ w' s', Goes ops w' (f s') fun steps r => Taken turns s' (deedsOf steps) r) :
    Goes ops w (x >>= f) fun steps r => Taken (turn :: turns) s (deedsOf steps) r := by
  refine h.bind ?_ ?_
  · intro steps s' w' _ htaken
    refine (hrest w' s').mono fun more r hmore => ?_
    rw [deedsOf, List.map_append]
    exact htaken.append hmore
  · intro steps e htaken
    exact htaken.cut

theorem goes_signOne (a : Artifact) :
    Goes ops w (signOne ops s a) fun steps r => Taken [.sign a] s (deedsOf steps) r := by
  refine Goes.after_quiet (Quiet.log _ _ _ w) ?_
  refine (Goes.signed a.path).bind ?_ ?_
  · intro steps outcome w' _ hdeeds
    refine Goes.pure ?_
    rw [List.append_nil, hdeeds]
    exact .signed (.done _)
  · intro steps e hdeeds
    rw [hdeeds]
    exact .notSigned a e [] s

theorem goes_signAll (artifacts : List Artifact) :
    Goes ops w (signAll ops s artifacts) fun steps r =>
      Taken (artifacts.map .sign) s (deedsOf steps) r := by
  induction artifacts generalizing w s with
  | nil => exact Goes.pure (.done s)
  | cons a rest ih => exact goes_turns (goes_signOne ops w s a) ih

theorem goes_treatCandidate (a : Artifact) :
    Goes ops w (treatCandidate ops s a) fun steps r => Taken [.treat a] s (deedsOf steps) r := by
  refine Goes.classified a.path fun step verdict hstep => ?_
  have hclassified : ∀ steps,
      deedsOf (step :: steps) = .classified a.path verdict :: deedsOf steps :=
    fun steps => congrArg (· :: deedsOf steps) hstep
  cases verdict with
  | false =>
    -- another build: logged and left as it is
    refine Goes.after_quiet (Quiet.log _ _ _ _) (Goes.pure ?_)
    rw [hclassified]
    exact .other (.done s)
  | true =>
    -- the key goes in first; without it the artifact is not signed
    refine (Goes.injected a.path).bind ?_ ?_
    · intro steps u w' _ hdeeds
      refine (goes_signOne ops w' _ a).mono fun more r hmore => ?_
      have hdeeds : deedsOf (steps ++ more) = .injected a.path (.ok u) :: deedsOf more := by
        rw [deedsOf, List.map_append, ← deedsOf, hdeeds]
        rfl
      rw [hclassified, hdeeds]
      exact .treated hmore
    · intro steps e hdeeds
      rw [hclassified, hdeeds]
      exact .notInjected a e [] s

theorem goes_treatCandidates (artifacts : List Artifact) :
    Goes ops w (treatCandidates ops s artifacts) fun steps r =>
      Taken (artifacts.map .treat) s (deedsOf steps) r := by
  induction artifacts generalizing w s with
  | nil => exact Goes.pure (.done s)
  | cons a rest ih => exact goes_turns (goes_treatCandidate ops w s a) ih

end

/-! ## Group after group -/

/-- A group of turns, found among files. -/
abbrev Group := FileSystem → Except SignError (List Turn)

/-- The turns of a run, and why no further ones could be found, if that was so. -/
structure Prescription where
  turns : List Turn
  fault : Option SignError

/-- The result of taking turns, unless there is a reason to fail after them. -/
def Prescription.resultOf (p : Prescription) : Except SignError Summary → Except SignError Summary
  | .ok s =>
    match p.fault with
    | some e => .error e
    | none => .ok s
  | .error e => .error e

theorem Prescription.errorOf_resultOf (p : Prescription) (r : Except SignError Summary) :
    errorOf (p.resultOf r) = (errorOf r).or p.fault := by
  rcases p with ⟨turns, _ | fault⟩ <;> cases r <;> rfl

theorem Prescription.ok_of_resultOf {p : Prescription} {r : Except SignError Summary} {s : Summary}
    (h : p.resultOf r = .ok s) : r = .ok s := by
  rcases p with ⟨turns, _ | fault⟩ <;> cases r <;> first | exact h | cases h

/--
The turns of groups, each found among the files as they are when all turns of the groups before it
have been taken.
-/
def prescribe : List Group → FileSystem → List (Step σ) → Prescription
  | [], _, _ => ⟨[], none⟩
  | group :: groups, fs, steps =>
    match group fs with
    | .error e => ⟨[], some e⟩
    | .ok turns =>
      let made := (callsOf turns (verdictsOf (deedsOf steps))).length
      let later := prescribe groups (filesAfter fs (steps.take made)) (steps.drop made)
      ⟨turns ++ later.turns, later.fault⟩

/-- The steps are those prescribed, up to the first failure. -/
def AsPrescribed (groups : List Group) (fs : FileSystem) (s : Summary) (steps : List (Step σ))
    (r : Except SignError Summary) : Prop :=
  ∃ taken, Taken (prescribe groups fs steps).turns s (deedsOf steps) taken ∧
    r = (prescribe groups fs steps).resultOf taken

/-- The attempt finds a group among the files, and only logs; `turns` says what is to be done. -/
def Finds (group : Group) (find : Attempt σ α) (turns : α → List Turn) : Prop :=
  ∀ w, Quiet w (find.run.run w).2 ∧ (find.run.run w).1.map turns = group w.files

section

variable {ops : ArtifactOps σ} {w : World σ} {s : Summary} {group : Group} {groups : List Group}

/-- One group, then the others. -/
theorem goes_groups {find : Attempt σ α} {turns : α → List Turn} {x : α → Attempt σ Summary}
    {f : Summary → Attempt σ Summary} (hfind : Finds group find turns)
    (hx : ∀ w' a, Goes ops w' (x a) fun steps r => Taken (turns a) s (deedsOf steps) r)
    (hf : ∀ w' s', Goes ops w' (f s') (AsPrescribed groups w'.files s')) :
    Goes ops w (find >>= fun a => x a >>= f) (AsPrescribed (group :: groups) w.files s) := by
  rcases hfind w with ⟨hquiet, hgroup⟩
  have hfound : Goes ops w find fun steps r => steps = [] ∧ r.map turns = group w.files :=
    ⟨[], .quiet hquiet, rfl, hgroup⟩
  refine hfound.bind ?_ ?_
  · rintro _ a w₁ hquiet ⟨rfl, hturns⟩
    have hfiles : w₁.files = w.files := hquiet.files_eq
    refine (hx w₁ a).bind ?_ ?_
    · intro steps s' w' hcourse htaken
      refine (hf w' s').mono ?_
      rintro more r ⟨taken, hmore, hr⟩
      -- All turns of the first group were taken, so its calls are exactly the steps up to here,
      -- and the later groups are found among the files as these left them.
      have hmade : (callsOf (turns a) (verdictsOf (deedsOf (steps ++ more)))).length =
          steps.length := by
        have hlength := htaken.length_calls (deedsOf more)
        rwa [deedsOf, deedsOf, ← List.map_append, List.length_map] at hlength
      have hprescribe : prescribe (group :: groups) w.files (steps ++ more) =
          ⟨turns a ++ (prescribe groups w'.files more).turns,
            (prescribe groups w'.files more).fault⟩ := by
        rw [prescribe, ← hturns, ← hfiles]
        simp only [Except.map, hmade, List.take_left, List.drop_left, ← hcourse.files_eq]
      refine ⟨taken, ?_⟩
      rw [List.nil_append, hprescribe, deedsOf, List.map_append]
      exact ⟨htaken.append hmore, hr⟩
    · -- a turn failed: which groups would have come later does not matter
      intro steps e htaken
      refine ⟨.error e, ?_, rfl⟩
      rw [prescribe, ← hturns]
      exact htaken.cut
  · -- the group could not be found: no turn of it is taken
    rintro _ e ⟨rfl, herror⟩
    refine ⟨.ok s, ?_⟩
    rw [prescribe, ← herror]
    exact ⟨.done s, rfl⟩

end

/-! ## The groups of a boot directory -/

namespace BootLayout

/-- The named bootloaders that are regular files, in the order of the names. -/
def candidatePaths (layout : BootLayout) (names : List Path) (fs : FileSystem) : List Path :=
  (names.map (layout.bootloaderDir / ·)).filter fs.isFile

/-- The real path of the root kernel, if it is a regular file. -/
def kernelPath? (layout : BootLayout) (fs : FileSystem) : Option Path :=
  (layout.resolveRootKernel fs).toOption.filter fs.isFile

end BootLayout

/-- The files that a glob selects, each to be signed. -/
def selected (glob : ArtifactGlob) (dir : Path) (tag : ArtifactGroup) : Group := fun fs =>
  (glob.select fs dir).map fun found => found.files.map fun p => .sign ⟨p, tag⟩

/-- The groups of a boot directory, in the order in which a run takes them. -/
def groupsOf (layout : BootLayout) (plan : SigningPlan) : List Group :=
  [selected plan.bootloaders layout.bootloaderDir .bootloader,
    fun fs => .ok ((layout.candidatePaths plan.candidates fs).map fun p => .treat ⟨p, .crdyboot⟩),
    selected plan.syslinuxKernels layout.syslinuxDir .syslinuxKernel,
    fun fs => .ok ((layout.kernelPath? fs).toList.map fun p => .sign ⟨p, .rootKernel⟩)]

theorem selected_eq_ok_iff {glob : ArtifactGlob} {dir : Path} {tag : ArtifactGroup}
    {fs : FileSystem} {turns : List Turn} :
    selected glob dir tag fs = .ok turns ↔ ∃ selection, glob.select fs dir = .ok selection ∧
      turns = selection.files.map fun p => .sign ⟨p, tag⟩ := by
  rw [selected]
  cases glob.select fs dir with
  | error e => simp [Except.map]
  | ok selection => simp [Except.map, eq_comm]

theorem selected_eq_error_iff {glob : ArtifactGlob} {dir : Path} {tag : ArtifactGroup}
    {fs : FileSystem} {e : SignError} :
    selected glob dir tag fs = .error e ↔ glob.select fs dir = .error e := by
  rw [selected]
  cases glob.select fs dir with
  | error fault => simp [Except.map]
  | ok selection => simp [Except.map]

/-- A group is found if the files of its glob can be selected. -/
theorem selected_isOk_iff {glob : ArtifactGlob} {dir : Path} {tag : ArtifactGroup}
    {fs : FileSystem} : (∃ turns, selected glob dir tag fs = .ok turns) ↔
      ∃ selection, glob.select fs dir = .ok selection := by
  simp only [selected_eq_ok_iff]
  constructor
  · rintro ⟨_, selection, hselect, _⟩
    exact ⟨selection, hselect⟩
  · rintro ⟨selection, hselect⟩
    exact ⟨_, selection, hselect, rfl⟩

/-- Files are handed on as a glob selects them; what was passed over is only logged. -/
theorem matchingFiles_selects (glob : ArtifactGlob) (dir : Path) (w : World σ) :
    Quiet w ((glob.matchingFiles dir).run.run w).2 ∧
      ((glob.matchingFiles dir).run.run w).1 = (glob.select w.files dir).map Selection.files := by
  rw [ArtifactGlob.matchingFiles, run_files]
  cases glob.select w.files dir with
  | error e => exact ⟨Quiet.refl w, rfl⟩
  | ok selection =>
    rcases Quiet.forM_log selection.passedOver
      (fun p => ⟨.warn, .locator, p.message⟩) w with ⟨w', hloop, hquiet⟩
    simp only [run_bind, log, hloop]
    exact ⟨hquiet, rfl⟩

theorem finds_selected (glob : ArtifactGlob) (dir : Path) (tag : ArtifactGroup) :
    Finds (selected glob dir tag)
      (do return (← glob.matchingFiles dir).map (⟨·, tag⟩) : Attempt σ (List Artifact))
      (·.map .sign) := by
  intro w
  rcases matchingFiles_selects glob dir w with ⟨hquiet, hfound⟩
  rw [run_bind, selected]
  rcases hrun : (glob.matchingFiles dir).run.run w with ⟨r, w'⟩
  rw [hrun] at hquiet hfound
  cases hselect : glob.select w.files dir with
  | error e =>
    rw [hselect] at hfound
    subst hfound
    exact ⟨hquiet, rfl⟩
  | ok selection =>
    rw [hselect] at hfound
    subst hfound
    exact ⟨hquiet, congrArg Except.ok List.map_map⟩

theorem finds_bootloaders (layout : BootLayout) (glob : ArtifactGlob) :
    Finds (selected glob layout.bootloaderDir .bootloader)
      (layout.bootloaders glob : Attempt σ (List Artifact)) (·.map .sign) :=
  finds_selected glob _ _

theorem finds_syslinuxKernels (layout : BootLayout) (glob : ArtifactGlob) :
    Finds (selected glob layout.syslinuxDir .syslinuxKernel)
      (layout.syslinuxKernels glob : Attempt σ (List Artifact)) (·.map .sign) :=
  finds_selected glob _ _

/-- An action always finds its group. -/
theorem finds_of_action {group : FileSystem → List Turn} {x : Action σ α} {turns : α → List Turn}
    (h : ∀ w, Quiet w (x.run w).2 ∧ turns (x.run w).1 = group w.files) :
    Finds (fun fs => .ok (group fs)) (x : Attempt σ α) turns :=
  fun w => ⟨(h w).1, congrArg Except.ok (h w).2⟩

theorem finds_candidates (layout : BootLayout) (names : List Path) :
    Finds (fun fs => .ok ((layout.candidatePaths names fs).map fun p => .treat ⟨p, .crdyboot⟩))
      ((layout.crdybootCandidates names : Action σ _) : Attempt σ (List Artifact))
      (·.map .treat) := by
  refine finds_of_action fun w => ⟨?_, List.map_map⟩
  exact Quiet.forM (fun path => Quiet.log _ _ _) w

theorem finds_kernel (layout : BootLayout) :
    Finds (fun fs => .ok ((layout.kernelPath? fs).toList.map fun p => .sign ⟨p, .rootKernel⟩))
      ((layout.rootKernel? : Action σ _) : Attempt σ (Option Artifact)) (·.toList.map .sign) := by
  refine finds_of_action fun w => ?_
  rw [BootLayout.rootKernel?, run_files_action, BootLayout.kernelPath?]
  cases layout.resolveRootKernel w.files with
  | error fault => exact ⟨Quiet.log _ _ _ w, rfl⟩
  | ok path =>
    refine ⟨Quiet.refl w, ?_⟩
    have hkernel : (Except.ok path : Except Fault Path).toOption.filter w.files.isFile =
        if w.files.isFile path then some path else none := Option.filter_some
    rw [hkernel]
    show List.map Turn.sign
      (if w.files.isFile path then some ⟨path, .rootKernel⟩ else none : Option Artifact).toList = _
    split <;> rfl

open Orchestration in
/-- A run takes the turns prescribed, whatever its operations do. -/
theorem goes_run (ops : ArtifactOps σ) (layout : BootLayout) (plan : SigningPlan) (w : World σ) :
    Goes ops w (run layout plan ops) (AsPrescribed (groupsOf layout plan) w.files .empty) := by
  unfold run groupsOf
  -- four groups, and a word in the log when all are done
  refine goes_groups (finds_bootloaders layout _)
    (fun w artifacts => goes_signAll ops w .empty artifacts) fun w₁ s₁ => ?_
  refine goes_groups (finds_candidates layout _)
    (fun w artifacts => goes_treatCandidates ops w s₁ artifacts) fun w₂ s₂ => ?_
  refine goes_groups (finds_syslinuxKernels layout _)
    (fun w artifacts => goes_signAll ops w s₂ artifacts) fun w₃ s₃ => ?_
  refine goes_groups (finds_kernel layout)
    (fun w kernel => goes_signAll ops w s₃ kernel.toList) fun w₄ s₄ => ?_
  exact Goes.after_quiet (Quiet.log _ _ _ _) (Goes.pure ⟨.ok s₄, .done s₄, rfl⟩)

/-! ## What turns are prescribed -/

/-- What holds of every turn found in a group holds of every turn prescribed. -/
theorem prescribe_turns {P : Turn → Prop} {groups : List Group}
    (hgroups : ∀ group ∈ groups, ∀ fs turns, group fs = .ok turns → ∀ turn ∈ turns, P turn)
    (fs : FileSystem) (steps : List (Step σ)) :
    ∀ turn ∈ (prescribe groups fs steps).turns, P turn := by
  induction groups generalizing fs steps with
  | nil => exact nofun
  | cons group groups ih =>
    rcases List.forall_mem_cons.1 hgroups with ⟨hgroup, hrest⟩
    cases hturns : group fs with
    | error e =>
      rw [prescribe, hturns]
      exact nofun
    | ok turns =>
      rw [prescribe, hturns]
      exact List.forall_mem_append.2 ⟨hgroup fs turns hturns, ih hrest _ _⟩

theorem ble_trans (n m k : Nat) (hnm : Nat.ble n m = true) (hmk : Nat.ble m k = true) :
    Nat.ble n k = true := by
  have hle := Nat.le_trans (Nat.le_of_ble_eq_true hnm) (Nat.le_of_ble_eq_true hmk)
  exact Nat.ble_eq_true_of_le hle

theorem ble_total (n m : Nat) : (Nat.ble n m || Nat.ble m n) = true := by
  simpa using Nat.le_total n m

theorem Path.le_trans (p q r : Path) (h : p.le q = true) (h' : q.le r = true) : p.le r = true := by
  -- component by component, and byte by byte within a component
  refine lexLe_trans ?_ p.key q.key r.key h h'
  exact lexLe_trans ble_trans

theorem Path.le_total (p q : Path) : (p.le q || q.le p) = true := by
  refine lexLe_total ?_ p.key q.key
  exact lexLe_total ble_total

theorem choose_of_select {glob : ArtifactGlob} {fs : FileSystem} {dir : Path}
    {selection : Selection} (h : glob.select fs dir = .ok selection) :
    ∃ found, selection = ArtifactGlob.choose fs found := by
  rw [ArtifactGlob.select] at h
  cases hsearch : Glob.Search.ofPattern (glob.below dir) with
  | error fault => simp [hsearch] at h
  | ok search =>
    simp only [hsearch, Except.ok.injEq] at h
    exact ⟨search.run fs, h.symm⟩

/-- Only a pattern that cannot be read below the directory selects nothing at all. -/
theorem invalidGlob_of_select {glob : ArtifactGlob} {fs : FileSystem} {dir : Path} {e : SignError}
    (h : glob.select fs dir = .error e) :
    ∃ reason, e = .invalidGlob (String.ofList (glob.below dir)) reason := by
  rw [ArtifactGlob.select] at h
  cases hsearch : Glob.Search.ofPattern (glob.below dir) with
  | ok search => simp [hsearch] at h
  | error fault =>
    simp only [hsearch, Except.error.injEq] at h
    exact ⟨_, h.symm⟩

/-- The files of a selection are in the order of their paths. -/
theorem sorted_of_select {glob : ArtifactGlob} {fs : FileSystem} {dir : Path}
    {selection : Selection} (h : glob.select fs dir = .ok selection) :
    selection.files.Pairwise fun p q => p.le q = true := by
  rcases choose_of_select h with ⟨found, rfl⟩
  exact List.pairwise_mergeSort Path.le_trans Path.le_total _

theorem isFile_of_select {glob : ArtifactGlob} {fs : FileSystem} {dir : Path}
    {selection : Selection} (h : glob.select fs dir = .ok selection) :
    ∀ p ∈ selection.files, fs.isFile p = true := by
  rcases choose_of_select h with ⟨found, rfl⟩
  intro p hp
  have hfound := List.mem_mergeSort.1 hp
  have hboth := (List.mem_filter.1 hfound).2
  exact (Bool.and_eq_true_iff.1 hboth).2

theorem isFile_of_selected {glob : ArtifactGlob} {dir : Path} {tag : ArtifactGroup}
    {fs : FileSystem} {turns : List Turn} (h : selected glob dir tag fs = .ok turns) :
    ∀ turn ∈ turns, fs.isFile turn.artifact.path = true := by
  rcases selected_eq_ok_iff.1 h with ⟨selection, hselect, rfl⟩
  exact List.forall_mem_map.2 (isFile_of_select hselect)

/-- Every artifact was a regular file when its group was found. -/
theorem isFile_of_group {layout : BootLayout} {plan : SigningPlan} {group : Group}
    (hgroup : group ∈ groupsOf layout plan) {fs : FileSystem} {turns : List Turn}
    (h : group fs = .ok turns) : ∀ turn ∈ turns, fs.isFile turn.artifact.path = true := by
  simp only [groupsOf, List.mem_cons, List.not_mem_nil, or_false] at hgroup
  rcases hgroup with rfl | rfl | rfl | rfl
  · exact isFile_of_selected h
  · cases h
    exact List.forall_mem_map.2 fun p hp => (List.mem_filter.1 hp).2
  · exact isFile_of_selected h
  · cases h
    refine List.forall_mem_map.2 fun p hp => ?_
    have hkernel := Option.mem_toList.1 hp
    exact (Option.mem_filter_iff.1 hkernel).2

/-- Every artifact whose turn it is has a file name. -/
theorem fileName?_of_prescribed (layout : BootLayout) (plan : SigningPlan) (fs : FileSystem)
    (steps : List (Step σ)) :
    ∀ turn ∈ (prescribe (groupsOf layout plan) fs steps).turns,
      ∃ name, turn.artifact.path.fileName? = some name := by
  refine prescribe_turns (fun group hgroup fs' turns hturns turn hturn => ?_) fs steps
  have hfile := isFile_of_group hgroup hturns turn hturn
  exact FileSystem.fileName?_isSome_of_isFile hfile

/-- Whatever is done as prescribed is done to an artifact with a file name. -/
theorem fileName?_of_asPrescribed {layout : BootLayout} {plan : SigningPlan} {fs : FileSystem}
    {s : Summary} {steps : List (Step σ)} {r : Except SignError Summary}
    (h : AsPrescribed (groupsOf layout plan) fs s steps r) :
    ∀ deed ∈ deedsOf steps, ∃ name, deed.artifact.fileName? = some name := by
  rcases h with ⟨taken, htaken, -⟩
  intro deed hdeed
  have hartifact := htaken.artifacts_subset (List.mem_map_of_mem hdeed)
  rcases List.mem_map.1 hartifact with ⟨turn, hturn, hpath⟩
  rw [← hpath]
  exact fileName?_of_prescribed layout plan fs steps turn hturn

end BootSigning
