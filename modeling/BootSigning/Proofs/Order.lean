import BootSigning.Proofs.Course

/-!
# Order — operations are called as prescribed

Operations can be watched: every call is noted with its answer and with the worlds before and
after it.

* `ArtifactOps.watched`: operations that note their calls;
* `Mirrors`: a watched computation does what the other does, as `mirrors_run` says of a whole run;
* `noted_as_prescribed`: the calls noted are those prescribed, cut off after the first failure.
-/

namespace BootSigning

variable {σ α β : Type}

/-! ## Watching operations -/

/-- A memory with the steps so far. -/
abbrev Watched (σ : Type) := σ × List (Step σ)

/-- The world as it is for those who are watched. -/
def World.bare (w : World (Watched σ)) : World σ := ⟨w.files, w.memory.1, w.events⟩

/-- The world of a watched run before its first step. -/
def World.watched (w : World σ) : World (Watched σ) := ⟨w.files, (w.memory, []), w.events⟩

/-- Does the same and notes the step. -/
def watch (deed : α → Deed) (x : Action σ α) : Action (Watched σ) α := do
  let w ← get
  let (a, after) := x.run w.bare
  set (⟨after.files, (after.memory, w.memory.2 ++ [⟨w.bare, deed a, after⟩]), after.events⟩ :
    World (Watched σ))
  return a

/-- The operations, with every step noted. -/
def ArtifactOps.watched (ops : ArtifactOps σ) : ArtifactOps (Watched σ) where
  classify p := watch (.classified p) (ops.classify p)
  inject p := ExceptT.mk (watch (.injected p) (ops.inject p).run)
  sign p := ExceptT.mk (watch (.signed p) (ops.sign p).run)

/-! ## Watching changes nothing -/

/-- In every world `x` answers as `y` does there, and leaves the same but for what was noted. -/
def Mirrors (x : Action (Watched σ) α) (y : Action σ α) : Prop :=
  ∀ w, y.run w.bare = ((x.run w).1, (x.run w).2.bare)

namespace Mirrors

theorem result {x : Action (Watched σ) α} {y : Action σ α} (h : Mirrors x y)
    (w : World (Watched σ)) : (y.run w.bare).1 = (x.run w).1 := by
  rw [h w]

theorem watch (deed : α → Deed) (x : Action σ α) : Mirrors (watch deed x) x := fun _ => rfl

theorem pure (a : α) : Mirrors (σ := σ) (Pure.pure a) (Pure.pure a) := fun _ => rfl

theorem log (level : Level) (component : Component) (message : String) :
    Mirrors (σ := σ) (log level component message) (log level component message) := fun _ => rfl

theorem files : Mirrors (σ := σ) files files := fun _ => rfl

theorem bind {x : Action (Watched σ) α} {y : Action σ α} {f : α → Action (Watched σ) β}
    {g : α → Action σ β} (h : Mirrors x y) (hf : ∀ a, Mirrors (f a) (g a)) :
    Mirrors (x >>= f) (y >>= g) := by
  intro w
  rw [StateT.run_bind, h w]
  exact hf _ _

theorem forM {f : α → Action (Watched σ) Unit} {g : α → Action σ Unit}
    (h : ∀ a, Mirrors (f a) (g a)) (items : List α) : Mirrors (items.forM f) (items.forM g) := by
  induction items with
  | nil => exact pure ()
  | cons item rest ih => exact bind (h item) fun _ => ih

/-! ### In attempts -/

theorem attempt {x : Attempt (Watched σ) α} {y : Attempt σ α} {f : α → Attempt (Watched σ) β}
    {g : α → Attempt σ β} (h : Mirrors x.run y.run) (hf : ∀ a, Mirrors (f a).run (g a).run) :
    Mirrors (x >>= f).run (y >>= g).run := by
  rw [ExceptT.run_bind, ExceptT.run_bind]
  refine bind h fun r => ?_
  cases r with
  | ok a => exact hf a
  | error e => exact pure _

theorem forM_attempt {f : α → Attempt (Watched σ) Unit} {g : α → Attempt σ Unit}
    (h : ∀ a, Mirrors (f a).run (g a).run) (items : List α) :
    Mirrors (items.forM f).run (items.forM g).run := by
  induction items with
  | nil => exact pure _
  | cons item rest ih => exact attempt (h item) fun _ => ih

theorem lifted {x : Action (Watched σ) α} {y : Action σ α} {f : α → Attempt (Watched σ) β}
    {g : α → Attempt σ β} (h : Mirrors x y) (hf : ∀ a, Mirrors (f a).run (g a).run) :
    Mirrors ((x : Attempt (Watched σ) α) >>= f).run ((y : Attempt σ α) >>= g).run :=
  bind h hf

end Mirrors

section

variable (ops : ArtifactOps σ)

open Orchestration

theorem mirrors_signOne (s : Summary) (a : Artifact) :
    Mirrors (signOne ops.watched s a).run (signOne ops s a).run := by
  refine Mirrors.lifted (Mirrors.log _ _ _) fun _ => ?_
  exact Mirrors.attempt (Mirrors.watch _ _) fun outcome => Mirrors.pure _

theorem mirrors_signAll (s : Summary) (artifacts : List Artifact) :
    Mirrors (signAll ops.watched s artifacts).run (signAll ops s artifacts).run := by
  induction artifacts generalizing s with
  | nil => exact Mirrors.pure _
  | cons a rest ih => exact Mirrors.attempt (mirrors_signOne ops s a) ih

theorem mirrors_treatCandidate (s : Summary) (a : Artifact) :
    Mirrors (treatCandidate ops.watched s a).run (treatCandidate ops s a).run := by
  refine Mirrors.lifted (Mirrors.watch _ _) fun verdict => ?_
  cases verdict with
  | false => exact Mirrors.lifted (Mirrors.log _ _ _) fun _ => Mirrors.pure _
  | true => exact Mirrors.attempt (Mirrors.watch _ _) fun _ => mirrors_signOne ops _ a

theorem mirrors_treatCandidates (s : Summary) (artifacts : List Artifact) :
    Mirrors (treatCandidates ops.watched s artifacts).run
      (treatCandidates ops s artifacts).run := by
  induction artifacts generalizing s with
  | nil => exact Mirrors.pure _
  | cons a rest ih => exact Mirrors.attempt (mirrors_treatCandidate ops s a) ih

theorem mirrors_matchingFiles (glob : ArtifactGlob) (dir : Path) :
    Mirrors (σ := σ) (glob.matchingFiles dir).run (glob.matchingFiles dir).run := by
  refine Mirrors.attempt (fun _ => rfl) fun fs => ?_
  cases glob.select fs dir with
  | error e => exact Mirrors.pure _
  | ok selection =>
    refine Mirrors.attempt ?_ fun _ => Mirrors.pure _
    exact Mirrors.forM_attempt (fun p _ => rfl) _

theorem mirrors_candidates (layout : BootLayout) (names : List Path) :
    Mirrors (σ := σ) (layout.crdybootCandidates names) (layout.crdybootCandidates names) := by
  refine Mirrors.bind Mirrors.files fun fs => ?_
  exact Mirrors.bind (Mirrors.forM (fun path => Mirrors.log _ _ _) _) fun _ => Mirrors.pure _

theorem mirrors_rootKernel (layout : BootLayout) :
    Mirrors (σ := σ) layout.rootKernel? layout.rootKernel? := by
  refine Mirrors.bind Mirrors.files fun fs => ?_
  cases layout.resolveRootKernel fs with
  | error fault => exact Mirrors.bind (Mirrors.log _ _ _) fun _ => Mirrors.pure _
  | ok path => exact Mirrors.pure _

theorem mirrors_bootloaders (layout : BootLayout) (glob : ArtifactGlob) :
    Mirrors (σ := σ) (layout.bootloaders glob).run (layout.bootloaders glob).run :=
  Mirrors.attempt (mirrors_matchingFiles glob _) fun _ => Mirrors.pure _

theorem mirrors_syslinuxKernels (layout : BootLayout) (glob : ArtifactGlob) :
    Mirrors (σ := σ) (layout.syslinuxKernels glob).run (layout.syslinuxKernels glob).run :=
  Mirrors.attempt (mirrors_matchingFiles glob _) fun _ => Mirrors.pure _

/-- Watching the operations of a run changes nothing. -/
theorem mirrors_run (layout : BootLayout) (plan : SigningPlan) :
    Mirrors (run layout plan ops.watched).run (run layout plan ops).run := by
  unfold run
  refine Mirrors.attempt (mirrors_bootloaders layout _) fun bootloaders => ?_
  refine Mirrors.attempt (mirrors_signAll ops _ _) fun s₁ => ?_
  refine Mirrors.lifted (mirrors_candidates layout _) fun candidates => ?_
  refine Mirrors.attempt (mirrors_treatCandidates ops _ _) fun s₂ => ?_
  refine Mirrors.attempt (mirrors_syslinuxKernels layout _) fun kernels => ?_
  refine Mirrors.attempt (mirrors_signAll ops _ _) fun s₃ => ?_
  refine Mirrors.lifted (mirrors_rootKernel layout) fun kernel => ?_
  refine Mirrors.attempt (mirrors_signAll ops _ _) fun s₄ => ?_
  exact Mirrors.lifted (Mirrors.log _ _ _) fun _ => Mirrors.pure _

end

/-! ## What is noted -/

/-- The step as it is for those who are watched. -/
def Step.bare (step : Step (Watched σ)) : Step σ := ⟨step.before.bare, step.deed, step.after.bare⟩

variable {ops : ArtifactOps σ}

theorem watch_run {deed : α → Deed} {x : Action σ α} {w w' : World (Watched σ)} {a : α}
    (h : (watch deed x).run w = (a, w')) :
    x.run w.bare = (a, w'.bare) ∧ w'.memory.2 = w.memory.2 ++ [⟨w.bare, deed a, w'.bare⟩] := by
  have hx := Mirrors.watch deed x w
  rw [h] at hx
  refine ⟨hx, ?_⟩
  have hmemory : ((watch deed x).run w).2.memory.2 =
      w.memory.2 ++ [⟨w.bare, deed (x.run w.bare).1, (x.run w.bare).2⟩] := rfl
  rwa [h, hx] at hmemory

/-- A watched step is a step of the operations, and is noted. -/
theorem Step.IsOf.bare {step : Step (Watched σ)} (h : step.IsOf ops.watched) :
    step.bare.IsOf ops ∧ step.after.memory.2 = step.before.memory.2 ++ [step.bare] := by
  rcases step with ⟨before, deed, after⟩
  -- each operation is watched in the same way
  cases deed <;> exact watch_run h

theorem Course.noted {w w' : World (Watched σ)} {steps : List (Step (Watched σ))}
    (h : Course ops.watched w steps w') :
    w'.memory.2 = w.memory.2 ++ steps.map Step.bare := by
  induction h with
  | quiet hquiet => rw [hquiet.memory, List.map_nil, List.append_nil]
  | @step w w' step steps hquiet hstep _ ih =>
    -- logging keeps the notes, the step adds itself
    calc w'.memory.2 = step.after.memory.2 ++ steps.map Step.bare := ih
      _ = step.before.memory.2 ++ [step.bare] ++ steps.map Step.bare := by rw [hstep.bare.2]
      _ = w.memory.2 ++ (step :: steps).map Step.bare := by
        rw [hquiet.memory, List.append_assoc]
        rfl

theorem deedsOf_bare (steps : List (Step (Watched σ))) :
    deedsOf (steps.map Step.bare) = deedsOf steps := List.map_map

theorem prescribe_bare (groups : List Group) (fs : FileSystem) (steps : List (Step (Watched σ))) :
    prescribe groups fs (steps.map Step.bare) = prescribe groups fs steps := by
  induction groups generalizing fs steps with
  | nil => rfl
  | cons group groups ih =>
    have hfiles : ∀ steps : List (Step (Watched σ)),
        filesAfter fs (steps.map Step.bare) = filesAfter fs steps := by
      intro steps
      rw [filesAfter, filesAfter, List.getLast?_map]
      cases steps.getLast? <;> rfl
    simp only [prescribe, deedsOf_bare, ← List.map_take, ← List.map_drop, hfiles, ih]

/-! ## The order of calls -/

/-- The steps noted of a computation whose course is as prescribed are as prescribed too. -/
theorem noted_taken {groups : List Group} {w : World σ} {x : Attempt (Watched σ) Summary}
    (h : Goes ops.watched w.watched x (AsPrescribed groups w.files .empty)) :
    let steps := (x.run.run w.watched).2.memory.2
    (∀ step ∈ steps, step.IsOf ops) ∧
      AsPrescribed groups w.files .empty steps (x.run.run w.watched).1 := by
  intro steps
  rcases h with ⟨watched, hcourse, taken, htaken, hresult⟩
  -- the steps noted are those of the watched course, as they are for the operations themselves
  have hsteps : steps = watched.map Step.bare := hcourse.noted
  refine ⟨?_, taken, ?_, ?_⟩
  · rw [hsteps]
    exact List.forall_mem_map.2 fun step hstep => (hcourse.isOf step hstep).bare.1
  · rw [hsteps, deedsOf_bare, prescribe_bare]
    exact htaken
  · rw [hsteps, prescribe_bare]
    exact hresult

/-- What is noted of a computation whose course is as prescribed. -/
theorem noted_as_prescribed {groups : List Group} {w : World σ} {x : Attempt (Watched σ) Summary}
    (h : Goes ops.watched w.watched x (AsPrescribed groups w.files .empty)) :
    let steps := (x.run.run w.watched).2.memory.2
    let deeds := deedsOf steps
    let p := prescribe groups w.files steps
    (∀ step ∈ steps, step.IsOf ops) ∧
      deeds.map Deed.call =
        (callsOf p.turns (verdictsOf deeds)).take (deeds.findIdx Deed.failed + 1) ∧
      errorOf (x.run.run w.watched).1 = (firstError deeds).or p.fault := by
  intro steps deeds p
  rcases noted_taken h with ⟨hsteps, taken, htaken, hresult⟩
  refine ⟨hsteps, htaken.calls, ?_⟩
  calc errorOf (x.run.run w.watched).1 = errorOf (p.resultOf taken) := by rw [hresult]
    _ = (errorOf taken).or p.fault := p.errorOf_resultOf taken
    _ = (firstError deeds).or p.fault := by rw [htaken.errorOf_eq]

end BootSigning
