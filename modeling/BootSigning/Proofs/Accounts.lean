import Mathlib.Data.List.Forall2
import BootSigning.Proofs.Order
import BootSigning.Proofs.Runs

/-!
# Accounts — what a summary says of a run

A run that succeeds comes with a summary of what was done.  It is held against the calls that were
made:

* `signings`, `Ledger`: the artifacts whose signature turns ask for, and what came of each;
* `Accounts`: a summary that has every call in it, once and in order;
* `Taken.ledger`, `Taken.injections`: the summary of turns that were taken, by induction on them;
* `prescribe_parts`: the turns of a run, group by group;
* `accounts_of_run`: whatever the operations do, the summary of a run accounts for it.
-/

namespace BootSigning

variable {σ : Type}

/-! ## Ledgers -/

/-- The artifacts whose signature turns ask for.  Each candidate takes the next verdict. -/
def signings : List Turn → List Bool → List Artifact
  | [], _ => []
  | .sign a :: turns, verdicts => a :: signings turns verdicts
  | .treat a :: turns, true :: verdicts => a :: signings turns verdicts
  | .treat _ :: turns, false :: verdicts => signings turns verdicts
  | .treat _ :: turns, [] => signings turns []

/-- The candidates with a verdict of yes. -/
def rekeyed : List Turn → List Bool → List Artifact
  | [], _ => []
  | .sign _ :: turns, verdicts => rekeyed turns verdicts
  | .treat a :: turns, true :: verdicts => a :: rekeyed turns verdicts
  | .treat _ :: turns, false :: verdicts => rekeyed turns verdicts
  | .treat _ :: turns, [] => rekeyed turns []

/-- Artifacts with what came of their signature, in the order in which they were to be signed. -/
abbrev Ledger := List (Artifact × Outcome)

namespace Ledger

def artifacts (ledger : Ledger) : List Artifact := ledger.map Prod.fst

/-- The artifacts with an outcome. -/
def having (ledger : Ledger) (outcome : Outcome) : List Artifact :=
  (ledger.filter (·.2 = outcome)).map Prod.fst

end Ledger

namespace Deed

/-- The path that was to be signed, with the answer. -/
def signing? : Deed → Option (Path × Except SignError Outcome)
  | .signed p result => some (p, result)
  | _ => none

/-- The path that was to be given a new key, with the answer. -/
def injection? : Deed → Option (Path × Except SignError Unit)
  | .injected p result => some (p, result)
  | _ => none

end Deed

theorem having_cons_self (a : Artifact) (outcome : Outcome) (ledger : Ledger) :
    Ledger.having ((a, outcome) :: ledger) outcome = a :: ledger.having outcome := by
  simp [Ledger.having]

theorem having_cons_other (a : Artifact) {outcome other : Outcome} (h : outcome ≠ other)
    (ledger : Ledger) : Ledger.having ((a, outcome) :: ledger) other = ledger.having other := by
  simp [Ledger.having, h]

/-- Every artifact was signed or was skipped. -/
theorem having_perm (ledger : Ledger) :
    (ledger.having .signed ++ ledger.having .skipped).Perm ledger.artifacts := by
  have hskipped : ∀ entry : Artifact × Outcome,
      decide (entry.2 = .skipped) = !decide (entry.2 = .signed) := by
    rintro ⟨a, _ | _⟩ <;> rfl
  rw [Ledger.having, Ledger.having, ← List.map_append, funext hskipped]
  exact (List.filter_append_perm _ ledger).map Prod.fst

theorem having_sublist (ledger : Ledger) (outcome : Outcome) :
    (ledger.having outcome).Sublist ledger.artifacts :=
  List.filter_sublist.map Prod.fst

theorem signings_sublist (turns : List Turn) (verdicts : List Bool) :
    (signings turns verdicts).Sublist (turns.map Turn.artifact) := by
  fun_induction signings turns verdicts with
  | case1 => exact List.nil_sublist _
  | case2 _ _ _ ih | case3 _ _ _ ih => exact ih.cons_cons _
  | case4 _ _ _ ih | case5 _ _ ih => exact ih.cons _

/-! ## The summary of turns -/

section

variable {turns : List Turn} {s s' : Summary} {deeds : List Deed}

open Orchestration in
/-- Each turn that comes to a signature adds one entry, and the summary takes it over. -/
theorem Taken.ledger (h : Taken turns s deeds (.ok s')) :
    ∃ ledger : Ledger,
      ledger.artifacts = signings turns (verdictsOf deeds) ∧
      deeds.filterMap Deed.signing? = ledger.map (fun entry => (entry.1.path, .ok entry.2)) ∧
      s'.signed = s.signed ++ ledger.having .signed ∧
      s'.skipped = s.skipped ++ ledger.having .skipped := by
  generalize hr : (Except.ok s' : Except SignError Summary) = r at h
  induction h with
  | done s =>
    cases hr
    exact ⟨[], rfl, rfl, (List.append_nil _).symm, (List.append_nil _).symm⟩
  | @signed a outcome turns s deeds _ _ ih =>
    rcases ih hr with ⟨ledger, hasked, hanswered, hsigned, hskipped⟩
    refine ⟨(a, outcome) :: ledger, congrArg (a :: ·) hasked, congrArg (_ :: ·) hanswered, ?_⟩
    cases outcome with
    | signed =>
      rw [hsigned, hskipped, having_cons_self, having_cons_other a (by decide), note]
      exact ⟨List.append_assoc _ _ _, rfl⟩
    | skipped =>
      rw [hsigned, hskipped, having_cons_self, having_cons_other a (by decide), note]
      exact ⟨rfl, List.append_assoc _ _ _⟩
  | other _ ih => exact ih hr
  -- the signature that follows is that of the turn to sign, which the hypothesis is about
  | treated _ ih => exact ih hr
  | notSigned | notInjected => cases hr

/-- Each candidate with a verdict of yes is given a key and noted. -/
theorem Taken.injections (h : Taken turns s deeds (.ok s')) :
    s'.injected = s.injected ++ rekeyed turns (verdictsOf deeds) ∧
      deeds.filterMap Deed.injection? =
        (rekeyed turns (verdictsOf deeds)).map fun a => (a.path, .ok ()) := by
  generalize hr : (Except.ok s' : Except SignError Summary) = r at h
  induction h with
  | done s =>
    cases hr
    exact ⟨(List.append_nil _).symm, rfl⟩
  | @signed a outcome turns s deeds _ _ ih =>
    rcases ih hr with ⟨hinjected, hdeeds⟩
    refine ⟨hinjected.trans ?_, hdeeds⟩
    cases outcome <;> rfl
  | other _ ih => exact ih hr
  | @treated a turns s deeds _ _ ih =>
    rcases ih hr with ⟨hinjected, hdeeds⟩
    refine ⟨?_, congrArg (_ :: ·) hdeeds⟩
    calc s'.injected = (s.injected ++ [a]) ++ rekeyed turns (verdictsOf deeds) := hinjected
      _ = s.injected ++ (a :: rekeyed turns (verdictsOf deeds)) := List.append_assoc _ _ _
  | notSigned | notInjected => cases hr

theorem Taken.length_rekeyed (h : Taken turns s deeds (.ok s')) :
    (rekeyed turns (verdictsOf deeds)).length = (verdictsOf deeds).count true := by
  generalize hr : (Except.ok s' : Except SignError Summary) = r at h
  induction h with
  | done => rfl
  | signed _ ih => exact ih hr
  | other _ ih => exact ih hr
  | @treated a turns s deeds _ _ ih =>
    have hcount : (true :: verdictsOf deeds).count true = (verdictsOf deeds).count true + 1 :=
      List.count_cons_self
    exact (congrArg (· + 1) (ih hr)).trans hcount.symm
  | notSigned | notInjected => cases hr

end

/-! ## The turns of a run -/

/-- The place of a group among those of a run. -/
def ArtifactGroup.rank : ArtifactGroup → Nat
  | .bootloader => 0
  | .crdyboot => 1
  | .syslinuxKernel => 2
  | .rootKernel => 3

/-- The artifacts are in the order of their groups. -/
def GroupsInOrder (artifacts : List Artifact) : Prop :=
  artifacts.Pairwise fun a b => a.group.rank ≤ b.group.rank

/-- The groups that a fault keeps from being found have no turns. -/
theorem no_parts {groups : List Group} {Ps : List (List Turn → Prop)}
    (h : List.Forall₂ (fun group P => P [] ∧ ∀ fs turns, group fs = .ok turns → P turns)
      groups Ps) :
    ∃ parts : List (List Turn), List.Forall₂ (fun part P => P part) parts Ps ∧
      parts.flatten = [] := by
  induction h with
  | nil => exact ⟨[], .nil, rfl⟩
  | cons hgroup _ ih =>
    rcases ih with ⟨parts, hparts, hflatten⟩
    exact ⟨[] :: parts, .cons hgroup.1 hparts, hflatten⟩

/-- The turns prescribed are those of the groups one after another. -/
theorem prescribe_parts {groups : List Group} {Ps : List (List Turn → Prop)}
    (h : List.Forall₂ (fun group P => P [] ∧ ∀ fs turns, group fs = .ok turns → P turns) groups Ps)
    (fs : FileSystem) (steps : List (Step σ)) :
    ∃ parts : List (List Turn), List.Forall₂ (fun part P => P part) parts Ps ∧
      (prescribe groups fs steps).turns = parts.flatten := by
  induction h generalizing fs steps with
  | nil => exact ⟨[], .nil, rfl⟩
  | @cons group P groups Ps hgroup hrest ih =>
    cases hturns : group fs with
    | error e =>
      rcases no_parts hrest with ⟨parts, hparts, hflatten⟩
      refine ⟨[] :: parts, .cons hgroup.1 hparts, ?_⟩
      rw [prescribe, hturns]
      exact hflatten.symm
    | ok turns =>
      rw [prescribe, hturns]
      rcases ih _ _ with ⟨parts, hparts, hflatten⟩
      exact ⟨turns :: parts, .cons (hgroup.2 fs turns hturns) hparts,
        congrArg (turns ++ ·) hflatten⟩

theorem turns_of_selected {glob : ArtifactGlob} {dir : Path} {tag : ArtifactGroup}
    {fs : FileSystem} {turns : List Turn} (h : selected glob dir tag fs = .ok turns) :
    ∃ paths : List Path, turns = paths.map fun p => .sign ⟨p, tag⟩ := by
  rcases selected_eq_ok_iff.1 h with ⟨selection, _, rfl⟩
  exact ⟨selection.files, rfl⟩

/-- A run signs bootloaders, treats candidates, and signs kernels, of which one is that of root. -/
theorem turns_of_run (layout : BootLayout) (plan : SigningPlan) (fs : FileSystem)
    (steps : List (Step σ)) :
    ∃ (bootloaders candidates kernels : List Path) (root : Option Path),
      (prescribe (groupsOf layout plan) fs steps).turns =
        bootloaders.map (fun p => .sign ⟨p, .bootloader⟩) ++
          candidates.map (fun p => .treat ⟨p, .crdyboot⟩) ++
          kernels.map (fun p => .sign ⟨p, .syslinuxKernel⟩) ++
          root.toList.map (fun p => .sign ⟨p, .rootKernel⟩) := by
  have hgroups : List.Forall₂
      (fun (group : Group) (P : List Turn → Prop) =>
        P [] ∧ ∀ fs turns, group fs = .ok turns → P turns)
      (groupsOf layout plan)
      [fun turns => ∃ paths : List Path, turns = paths.map fun p => .sign ⟨p, .bootloader⟩,
        fun turns => ∃ paths : List Path, turns = paths.map fun p => .treat ⟨p, .crdyboot⟩,
        fun turns => ∃ paths : List Path, turns = paths.map fun p => .sign ⟨p, .syslinuxKernel⟩,
        fun turns => ∃ path : Option Path,
          turns = path.toList.map fun p => .sign ⟨p, .rootKernel⟩] := by
    refine .cons ⟨⟨[], rfl⟩, fun _ _ => turns_of_selected⟩ <|
      .cons ⟨⟨[], rfl⟩, ?_⟩ <|
      .cons ⟨⟨[], rfl⟩, fun _ _ => turns_of_selected⟩ <|
      .cons ⟨⟨none, rfl⟩, ?_⟩ .nil
    · rintro fs _ ⟨⟩
      exact ⟨_, rfl⟩
    · rintro fs _ ⟨⟩
      exact ⟨_, rfl⟩
  rcases prescribe_parts hgroups fs steps with ⟨parts, hparts, hturns⟩
  rcases hparts with _ | ⟨⟨bootloaders, rfl⟩, _ | ⟨⟨candidates, rfl⟩, _ | ⟨⟨kernels, rfl⟩,
    _ | ⟨⟨root, rfl⟩, ⟨⟩⟩⟩⟩⟩
  refine ⟨bootloaders, candidates, kernels, root, hturns.trans ?_⟩
  simp only [List.flatten_cons, List.flatten_nil, List.append_nil, List.append_assoc]

/-- Candidates are crdyboot builds, and nothing else is. -/
def Turn.FitsGroup : Turn → Prop
  | .sign a => a.group ≠ .crdyboot
  | .treat a => a.group = .crdyboot

section

variable (layout : BootLayout) (plan : SigningPlan) (fs : FileSystem) (steps : List (Step σ))

theorem fitsGroup_of_prescribed :
    ∀ turn ∈ (prescribe (groupsOf layout plan) fs steps).turns, turn.FitsGroup := by
  rcases turns_of_run layout plan fs steps with ⟨bootloaders, candidates, kernels, root, hturns⟩
  rw [hturns]
  simp only [List.forall_mem_append, List.forall_mem_map]
  refine ⟨⟨⟨?_, ?_⟩, ?_⟩, ?_⟩
  · exact fun _ _ => nofun
  · exact fun _ _ => rfl
  · exact fun _ _ => nofun
  · exact fun _ _ => nofun

theorem groupsInOrder_of_prescribed :
    GroupsInOrder ((prescribe (groupsOf layout plan) fs steps).turns.map Turn.artifact) := by
  rcases turns_of_run layout plan fs steps with ⟨bootloaders, candidates, kernels, root, hturns⟩
  rw [hturns, GroupsInOrder]
  -- within a group the ranks are equal, from group to group they grow
  simp [List.pairwise_append, List.pairwise_map, Turn.artifact, ArtifactGroup.rank,
    List.pairwise_of_forall, or_imp, forall_and]

theorem one_rootKernel_of_prescribed :
    ((prescribe (groupsOf layout plan) fs steps).turns.map Turn.artifact).countP
      (·.group = .rootKernel) ≤ 1 := by
  rcases turns_of_run layout plan fs steps with ⟨bootloaders, candidates, kernels, root, hturns⟩
  rw [hturns]
  cases root <;> simp [List.countP_append, List.countP_map, Turn.artifact, Function.comp_def]

end

/-- The candidates given a key are those among the artifacts to be signed. -/
theorem rekeyed_eq_filter (turns : List Turn) (verdicts : List Bool)
    (hfits : ∀ turn ∈ turns, turn.FitsGroup) :
    rekeyed turns verdicts = (signings turns verdicts).filter (·.group = .crdyboot) := by
  fun_induction signings turns verdicts with
  | case1 => rfl
  | case2 a turns verdicts ih =>
    rcases List.forall_mem_cons.1 hfits with ⟨hother, hrest⟩
    rw [rekeyed, List.filter_cons_of_neg (by simpa [Turn.FitsGroup] using hother)]
    exact ih hrest
  | case3 a turns verdicts ih =>
    rcases List.forall_mem_cons.1 hfits with ⟨hcrdyboot, hrest⟩
    rw [rekeyed, List.filter_cons_of_pos (by simpa [Turn.FitsGroup] using hcrdyboot), ih hrest]
  | case4 _ turns verdicts ih => exact ih (List.forall_mem_cons.1 hfits).2
  | case5 _ turns ih => exact ih (List.forall_mem_cons.1 hfits).2

/-! ## The summary of a run -/

/-- The summary has every call of the deeds in it that it should have, once and in order. -/
structure Accounts (turns : List Turn) (deeds : List Deed) (ledger : Ledger) (s : Summary) :
    Prop where
  /-- The ledger lists the artifacts that the turns ask to be signed, -/
  asked : ledger.artifacts = signings turns (verdictsOf deeds)
  /-- and the signatures asked for are just these, with the outcomes listed. -/
  answered :
    deeds.filterMap Deed.signing? = ledger.map fun entry => (entry.1.path, .ok entry.2)
  signed : s.signed = ledger.having .signed
  skipped : s.skipped = ledger.having .skipped
  /-- New keys were asked for the artifacts listed, and nothing else. -/
  injected : deeds.filterMap Deed.injection? = s.injected.map fun a => (a.path, .ok ())
  injectedSigned : s.injected = ledger.artifacts.filter (·.group = .crdyboot)
  injectedCount : s.injected.length = (verdictsOf deeds).count true
  signedInOrder : GroupsInOrder s.signed
  skippedInOrder : GroupsInOrder s.skipped
  oneRootKernel : (s.signed ++ s.skipped).countP (·.group = .rootKernel) ≤ 1

theorem accounts_of_taken {turns : List Turn} {deeds : List Deed} {s : Summary}
    (htaken : Taken turns .empty deeds (.ok s)) (hfits : ∀ turn ∈ turns, turn.FitsGroup)
    (horder : GroupsInOrder (turns.map Turn.artifact))
    (hroot : (turns.map Turn.artifact).countP (·.group = .rootKernel) ≤ 1) :
    ∃ ledger, Accounts turns deeds ledger s := by
  rcases htaken.ledger with ⟨ledger, hasked, hanswered, hsigned, hskipped⟩
  rcases htaken.injections with ⟨hinjected, hinjections⟩
  have hsigned : s.signed = ledger.having .signed := hsigned
  have hskipped : s.skipped = ledger.having .skipped := hskipped
  have hinjected : s.injected = rekeyed turns (verdictsOf deeds) := hinjected
  have hsub : ledger.artifacts.Sublist (turns.map Turn.artifact) :=
    hasked ▸ signings_sublist turns (verdictsOf deeds)
  refine ⟨ledger, hasked, hanswered, hsigned, hskipped, ?_, ?_, ?_, ?_, ?_, ?_⟩
  · rw [hinjected]
    exact hinjections
  · rw [hinjected, hasked]
    exact rekeyed_eq_filter turns _ hfits
  · rw [hinjected]
    exact htaken.length_rekeyed
  · rw [hsigned]
    exact horder.sublist ((having_sublist ledger .signed).trans hsub)
  · rw [hskipped]
    exact horder.sublist ((having_sublist ledger .skipped).trans hsub)
  · calc (s.signed ++ s.skipped).countP (·.group = .rootKernel)
        = ledger.artifacts.countP (·.group = .rootKernel) := by
          rw [hsigned, hskipped]
          exact (having_perm ledger).countP_eq _
      _ ≤ (turns.map Turn.artifact).countP (·.group = .rootKernel) := hsub.countP_le
      _ ≤ 1 := hroot

/-- What is noted of a computation that takes the turns of a run, and its summary. -/
theorem noted_accounts {ops : ArtifactOps σ} {layout : BootLayout} {plan : SigningPlan}
    {w : World σ} {x : Attempt (Watched σ) Summary} {summary : Summary}
    (h : Goes ops.watched w.watched x (AsPrescribed (groupsOf layout plan) w.files .empty))
    (hok : (x.run.run w.watched).1 = .ok summary) :
    let steps := (x.run.run w.watched).2.memory.2
    let deeds := deedsOf steps
    let turns := (prescribe (groupsOf layout plan) w.files steps).turns
    (∀ step ∈ steps, step.IsOf ops) ∧ deeds.map Deed.call = callsOf turns (verdictsOf deeds) ∧
      ∃ ledger, Accounts turns deeds ledger summary := by
  rcases noted_taken h with ⟨hsteps, taken, htaken, hresult⟩
  rw [Prescription.ok_of_resultOf (hresult.symm.trans hok)] at htaken
  exact ⟨hsteps, htaken.all_calls,
    accounts_of_taken htaken (fitsGroup_of_prescribed layout plan w.files _)
      (groupsInOrder_of_prescribed layout plan w.files _)
      (one_rootKernel_of_prescribed layout plan w.files _)⟩

open Orchestration in
/--
Whatever the operations do, the summary of a run that succeeds accounts for its calls: those for
signatures are divided into signed and skipped ones, those for new keys are listed as they were
made, with the groups that the artifacts were found in.
-/
theorem accounts_of_run (layout : BootLayout) (plan : SigningPlan) (ops : ArtifactOps σ)
    (w : World σ) {summary : Summary}
    (hok : ((run layout plan ops).run.run w).1 = .ok summary) :
    let outcome := (run layout plan ops.watched).run.run w.watched
    let steps := outcome.2.memory.2
    let deeds := deedsOf steps
    let turns := (prescribe (groupsOf layout plan) w.files steps).turns
    (run layout plan ops).run.run w = (outcome.1, outcome.2.bare) ∧
      (∀ step ∈ steps, step.IsOf ops) ∧
      deeds.map Deed.call = callsOf turns (verdictsOf deeds) ∧
      ∃ ledger, Accounts turns deeds ledger summary := by
  have hmirrors := mirrors_run ops layout plan
  have hnoted := noted_accounts (goes_run ops.watched layout plan w.watched)
    ((hmirrors.result w.watched).symm.trans hok)
  exact ⟨hmirrors w.watched, hnoted.1, hnoted.2.1, hnoted.2.2⟩

namespace SmallBoot

def plan : SigningPlan where
  bootloaders := ⟨request.bootloaders, by decide +kernel⟩
  syslinuxKernels := ⟨SigningPlan.syslinuxPattern, by decide +kernel⟩
  candidates := SigningPlan.defaultCandidates

/-- Every candidate is a crdyboot build, and nothing fails. -/
def rehearsal : Rehearsal := ⟨fun _ => true, [], [], []⟩

end SmallBoot

open Orchestration in
/-- A run that signs a bootloader, gives it a new key, and signs it again. -/
theorem accounts_of_run_small :
    ∃ summary,
      ((run ⟨SmallBoot.request.targetDir⟩ SmallBoot.plan SmallBoot.rehearsal.ops).run.run
        ⟨SmallBoot.files, [], []⟩).1 = .ok summary ∧
      let w : World (List OpCall) := ⟨SmallBoot.files, [], []⟩
      let layout : BootLayout := ⟨SmallBoot.request.targetDir⟩
      let ops := SmallBoot.rehearsal.ops
      let outcome := (run layout SmallBoot.plan ops.watched).run.run w.watched
      let steps := outcome.2.memory.2
      let deeds := deedsOf steps
      let turns := (prescribe (groupsOf layout SmallBoot.plan) w.files steps).turns
      (run layout SmallBoot.plan ops).run.run w = (outcome.1, outcome.2.bare) ∧
        (∀ step ∈ steps, step.IsOf ops) ∧
        deeds.map Deed.call = callsOf turns (verdictsOf deeds) ∧
        ∃ ledger, Accounts turns deeds ledger summary := by
  have hok : ((run ⟨SmallBoot.request.targetDir⟩ SmallBoot.plan SmallBoot.rehearsal.ops).run.run
      ⟨SmallBoot.files, [], []⟩).1.isOk = true := by
    decide +kernel
  cases hsummary : ((run ⟨SmallBoot.request.targetDir⟩ SmallBoot.plan
      SmallBoot.rehearsal.ops).run.run ⟨SmallBoot.files, [], []⟩).1 with
  | error e => simp [hsummary, Except.isOk, Except.toBool] at hok
  | ok summary =>
    exact ⟨summary, rfl, accounts_of_run ⟨SmallBoot.request.targetDir⟩ SmallBoot.plan
      SmallBoot.rehearsal.ops ⟨SmallBoot.files, [], []⟩ hsummary⟩

end BootSigning
