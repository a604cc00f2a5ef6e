import BootSigning.Proofs.Components
import BootSigning.Proofs.Listing
import BootSigning.Proofs.Order
import BootSigning.Proofs.RealPath

/-!
# Groups — which artifacts a run comes to, and in what order

A run finds four groups of artifacts, one after the other.  Where they are found is a matter of a
boot directory and its files, and is said here without the functions that look for them.

* `GlobGroup`: what the pattern of a plan leads to in a directory, each to be signed;
* `BootGroups`: the four groups of a boot directory, below `efi/boot` and `syslinux` and at the end
  of the link `vmlinuz`;
* `bootGroups_groupsOf`: the groups that a run looks for are these.

`run_calls_as_prescribed` says of every run that its calls are those for such groups, in order.
-/

namespace BootSigning

open FileSystem
open Glob (Readable NoSlash Reached Search childPath escape expand)

variable {σ : Type}

/-! ## Files that a pattern leads to -/

/-- The pattern of a glob below a directory, with the directory taken literally. -/
def patternBelow (glob : ArtifactGlob) (dir : Path) : List Char :=
  escape dir.text.toList ++ '/' :: glob.pattern.toList

/-- The group has the files that a glob leads to below a directory, each to be signed. -/
structure GlobGroup (glob : ArtifactGlob) (dir : Path) (tag : ArtifactGroup) (group : Group) :
    Prop where
  /-- Whether it can be found does not depend on the files. -/
  evaluated : ∀ fs, (∃ turns, group fs = .ok turns) ↔ Readable NoSlash true glob.pattern.toList
  refused : ∀ fs e, group fs = .error e →
    ∃ reason, e = .invalidGlob (String.ofList (patternBelow glob dir)) reason
  /-- In the order of their paths, and as often as the pattern leads to them. -/
  found : ∀ fs turns, group fs = .ok turns → ∃ (search : Search) (files : List Path),
    Search.ofPattern (patternBelow glob dir) = .ok search ∧
      turns = files.map (fun p => Turn.sign ⟨p, tag⟩) ∧
      (files.Pairwise fun p q => p.le q = true) ∧
      files.Perm ((expand fs search.directoriesOnly search.segments search.start).filter fun p =>
        p.isText && fs.isFile p)
  /-- Where the pattern is one for names, they are entries of the directory. -/
  entries : ∀ fs text, dir = Path.ofString text → text ≠ "" → Reached text.toList →
    glob.pattern ≠ "" → '/' ∉ glob.pattern.toList → glob.pattern ≠ "**" →
    ∃ base names, group fs = .ok (names.map fun name => .sign ⟨childPath base name, tag⟩) ∧
      ArtifactGlob.Lists fs text glob.pattern.toList base names

/-- What a glob selects below a directory is such a group. -/
theorem globGroup_selected (glob : ArtifactGlob) (dir : Path) (tag : ArtifactGroup) :
    GlobGroup glob dir tag (selected glob dir tag) where
  evaluated fs := selected_isOk_iff.trans (glob.select_isOk_iff fs dir)
  refused _ _ h := invalidGlob_of_select (selected_eq_error_iff.1 h)
  found fs turns h := by
    rcases selected_eq_ok_iff.1 h with ⟨selection, hselect, rfl⟩
    have hsorted := sorted_of_select hselect
    rw [ArtifactGlob.select] at hselect
    cases hsearch : Search.ofPattern (glob.below dir) with
    | error fault => simp [hsearch] at hselect
    | ok search =>
      simp only [hsearch, Except.ok.injEq] at hselect
      have hfiles : selection.files = ArtifactGlob.filesAmong fs
          (expand fs search.directoriesOnly search.segments search.start) := by
        rw [← hselect, ArtifactGlob.choose_files_run fs (Glob.isSlashless_search hsearch)]
      refine ⟨search, selection.files, hsearch, rfl, hsorted, ?_⟩
      rw [hfiles]
      exact List.mergeSort_perm _ _
  entries fs text hdir htext hreached hpattern hslash htree := by
    subst hdir
    rcases glob.select_in_directory hpattern hslash htree htext hreached fs with
      ⟨selection, names, hselect, hfiles, hlists⟩
    refine ⟨_, names, ?_, hlists⟩
    refine selected_eq_ok_iff.2 ⟨selection, hselect, ?_⟩
    rw [hfiles, List.map_map]
    rfl

/-! ## The groups of a boot directory -/

/-- The groups of the artifacts of a boot directory, each by the paths it is looked for at. -/
structure BootGroups (layout : BootLayout) (plan : SigningPlan)
    (bootloaders candidates kernels root : Group) : Prop where
  loaders : GlobGroup plan.bootloaders (layout.target / ("efi/boot" : Path)) .bootloader bootloaders
  /-- Those that are regular files, in the order of the names and as often as they are named. -/
  named : ∀ fs, candidates fs = .ok (((plan.candidates.map fun name =>
    layout.target / ("efi/boot" : Path) / name).filter fs.isFile).map
      fun p => .treat ⟨p, .crdyboot⟩)
  syslinux : GlobGroup plan.syslinuxKernels (layout.target / ("syslinux" : Path)) .syslinuxKernel
    kernels
  link : layout.rootKernelLink = layout.target / ("vmlinuz" : Path)
  /-- One kernel, by its real path, if the link leads to one; else none. -/
  kernel : ∀ fs, ∃ path : Option Path,
    root fs = .ok (path.toList.map fun p => .sign ⟨p, .rootKernel⟩) ∧
      ∀ p, path = some p ↔ ∃ loc, layout.HasKernel fs loc ∧ p = pathOf loc

theorem bootGroups_groupsOf (layout : BootLayout) (plan : SigningPlan) :
    ∃ bootloaders candidates kernels root,
      groupsOf layout plan = [bootloaders, candidates, kernels, root] ∧
        BootGroups layout plan bootloaders candidates kernels root :=
  ⟨_, _, _, _, rfl,
    { loaders := globGroup_selected _ _ _
      named := fun _ => rfl
      syslinux := globGroup_selected _ _ _
      link := rfl
      kernel := fun fs =>
        ⟨layout.kernelPath? fs, rfl, fun _ => BootLayout.kernelPath?_eq_some_iff⟩ }⟩

/-! ## The order of calls -/

open Orchestration in
/--
Whatever the operations are and answer, a run calls them as prescribed up to the first failure, and
ends with that failure, or else with the fault that kept a group from being found.  The groups are
those of its boot directory, each found among the files as they are when its first turn comes.
-/
theorem run_calls_as_prescribed (layout : BootLayout) (plan : SigningPlan) (ops : ArtifactOps σ)
    (w : World σ) :
    ∃ bootloaders candidates kernels root,
      BootGroups layout plan bootloaders candidates kernels root ∧
      let outcome := (run layout plan ops.watched).run.run w.watched
      let steps := outcome.2.memory.2
      let deeds := deedsOf steps
      let p := prescribe [bootloaders, candidates, kernels, root] w.files steps
      (run layout plan ops).run.run w = (outcome.1, outcome.2.bare) ∧
        (∀ step ∈ steps, step.IsOf ops) ∧
        deeds.map Deed.call =
          (callsOf p.turns (verdictsOf deeds)).take (deeds.findIdx Deed.failed + 1) ∧
        errorOf outcome.1 = (firstError deeds).or p.fault := by
  rcases bootGroups_groupsOf layout plan with
    ⟨bootloaders, candidates, kernels, root, hgroups, hfacts⟩
  refine ⟨bootloaders, candidates, kernels, root, hfacts, ?_⟩
  rw [← hgroups]
  have hnoted := noted_as_prescribed (goes_run ops.watched layout plan w.watched)
  exact ⟨mirrors_run ops layout plan w.watched, hnoted.1, hnoted.2.1, hnoted.2.2⟩

end BootSigning
