import BootSigning.Proofs.Course
import BootSigning.Proofs.Ways

/-!
# RealPath — where the link to the root kernel leads

The root kernel is found by a link, and signed at the path of the place that the link leads to in
the end, through however many other links.  Such a path starts at the root and spells out one
directory after another.

* `FileSystem.IsPlain`: a place with something that is no link, which is where walks end;
* `FileSystem.IsReal`: a path without dots on which no link stands;
* `FileSystem.resolve_pathOf`: the path of a plain place leads there and nowhere else;
* `BootLayout.HasKernel`: the link can be followed to a regular file that has a path of its own.

`rootKernel_real` says that a root kernel is found in just this case, that its path is then a real
one, and that a run goes on without a kernel in every other case.
-/

namespace BootSigning

open FileSystem

/-! ## Plain places -/

namespace FileSystem

variable {fs : FileSystem} {links more : Nat} {here loc top : Location} {names : List Name}

/-- Something stands at the place, and it is no link. -/
def IsPlain (fs : FileSystem) (loc : Location) : Prop :=
  ∃ node, fs.node? loc = some node ∧ ∀ target, node ≠ .symlink target

theorem isPlain_of_directory (h : fs.node? loc = some .directory) : IsPlain fs loc :=
  ⟨.directory, h, nofun⟩

/-- A walk through all links ends at none. -/
theorem Follows.isPlain (h : Follows fs links here names loc)
    (hstart : names = [] → IsPlain fs here) : IsPlain fs loc := by
  induction h with
  | done => exact hstart rfl
  | idle hopen _ _ ih => exact ih fun _ => isPlain_of_directory hopen.directory
  | up hopen _ _ _ ih => exact ih fun _ => isPlain_of_directory (node?_tail hopen.directory)
  | jump _ _ _ _ _ ih => exact ih fun hnil => absurd hnil (pieces_append_ne_nil _ _)
  | enter _ _ _ hnode hplain _ ih => exact ih fun _ => ⟨_, hnode, hplain⟩

/-- A walk may be allowed more links than it follows. -/
theorem Follows.mono (h : Follows fs links here names loc) (hle : links ≤ more) :
    Follows fs more here names loc := by
  induction h generalizing more with
  | done => exact .done
  | idle hopen hidle _ ih => exact .idle hopen hidle (ih hle)
  | up hopen hidle hup _ ih => exact .up hopen hidle hup (ih hle)
  | jump hopen hname hlength hlink _ ih =>
    rcases Nat.exists_eq_add_of_lt (Nat.lt_of_succ_le hle) with ⟨spare, rfl⟩
    exact .jump hopen hname hlength hlink (ih (Nat.le_add_right _ spare))
  | enter hopen hname hlength hnode hplain _ ih =>
    exact .enter hopen hname hlength hnode hplain (ih hle)

/-- Whatever has something below it is a directory. -/
theorem directory_of_below {node : Node} (h : fs.node? (names ++ top) = some node)
    (hbelow : names ≠ []) : fs.node? top = some .directory := by
  induction names generalizing node with
  | nil => exact absurd rfl hbelow
  | cons name rest ih =>
    have hparent : fs.node? (rest ++ top) = some .directory := (parent_of_node? h).2
    cases rest with
    | nil => exact hparent
    | cons _ _ => exact ih hparent (List.cons_ne_nil _ _)

theorem isProperName_of_node? {node : Node} (h : fs.node? loc = some node) :
    ∀ name ∈ loc, isProperName name = true := by
  induction loc generalizing node with
  | nil => exact nofun
  | cons name parent ih =>
    rcases parent_of_node? h with ⟨hname, hparent⟩
    exact List.forall_mem_cons.2 ⟨hname, ih hparent⟩

/-- The directories above a place can be searched. -/
def IsReachable (fs : FileSystem) (loc : Location) : Prop :=
  ∀ top, top <:+ loc → top ≠ loc → fs.refusal top .execute = none

/-- Down to a plain place that is reachable no link is met. -/
theorem follows_down (h : IsPlain fs (names.reverse ++ here))
    (hreach : fs.IsReachable (names.reverse ++ here)) :
    Follows fs 0 here names (names.reverse ++ here) := by
  induction names generalizing here with
  | nil => exact .done
  | cons name rest ih =>
    have habove : fs.refusal here .execute = none := by
      refine hreach here (List.suffix_append _ _) fun hsame => ?_
      have hlength := congrArg List.length hsame
      simp only [List.length_append, List.length_reverse, List.length_cons] at hlength
      omega
    rw [List.reverse_cons, List.append_assoc] at h hreach ⊢
    have hrest : Follows fs 0 (name :: here) rest (rest.reverse ++ ([name] ++ here)) := ih h hreach
    rcases h with ⟨node, hnode, hplain⟩
    have hproper := isProperName_of_node? hnode name (by simp)
    rcases isProperName_iff.1 hproper with ⟨hname, -, hlength⟩
    have hopen : Searchable fs here := by
      rw [← List.append_assoc] at hnode
      exact ⟨directory_of_below hnode (by simp), habove⟩
    -- the name is that of a directory, unless it is the last
    rcases List.eq_nil_or_concat rest with rfl | ⟨_, _, rfl⟩
    · exact .enter (hopen.opens name) hname hlength hnode hplain hrest
    · exact .enter (hopen.opens name) hname hlength (directory_of_below hnode (by simp)) nofun hrest

/-- A walk down to a plain place searches every directory that it passes. -/
theorem Follows.searched (h : Follows fs links here names loc)
    (hplain : IsPlain fs (names.reverse ++ here)) (hbelow : here <:+ top)
    (habove : top <:+ names.reverse ++ here) (hother : top ≠ names.reverse ++ here) :
    fs.refusal top .execute = none := by
  induction names generalizing here links with
  | nil =>
    have hsame : top = here := habove.eq_of_length_le hbelow.length_le
    exact absurd hsame hother
  | cons name rest ih =>
    rw [List.reverse_cons, List.append_assoc] at hplain habove hother
    rcases hplain with ⟨node, hnode, hlast⟩
    have hname := (isProperName_iff.1 (isProperName_of_node? hnode name (by simp))).1
    have hfirst : ∀ target, fs.node? (name :: here) ≠ some (.symlink target) := by
      intro target hlink
      rcases List.eq_nil_or_concat rest with rfl | ⟨_, _, rfl⟩
      · cases hlink.symm.trans hnode
        exact hlast target rfl
      · have hdir : fs.node? (name :: here) = some .directory := directory_of_below hnode (by simp)
        rw [hdir] at hlink
        cases hlink
    cases h with
    | idle _ hidle _ => simp [hname.1] at hidle
    | up _ _ hup _ => simp [hname.2] at hup
    | jump _ _ _ hlink _ => exact absurd hlink (hfirst _)
    | enter hopen _ _ _ _ hrest =>
      by_cases hhere : top = here
      · exact hhere ▸ (hopen.searchable (ne_nil_of_not_idle hname.1)).allowed
      · have hlonger : (name :: here).length ≤ top.length := by
          have hne : here.length ≠ top.length := fun h => hhere (hbelow.eq_of_length h).symm
          have hle := hbelow.length_le
          rw [List.length_cons]
          omega
        have hnext : name :: here <:+ top :=
          List.suffix_of_suffix_length_le (List.suffix_append _ _) habove hlonger
        exact ih hrest ⟨node, hnode, hlast⟩ hnext habove hother

/-! ## Paths of places -/

theorem splitOn_flatMap_slash (h : ∀ name ∈ names, Path.slash ∉ name) :
    (names.reverse.flatMap (Path.slash :: ·)).splitOn Path.slash = [] :: names.reverse := by
  induction names with
  | nil => rfl
  | cons name rest ih =>
    rcases List.forall_mem_cons.1 h with ⟨hname, hrest⟩
    rw [List.reverse_cons, List.flatMap_append, List.flatMap_singleton,
      List.splitOn_append_cons_self, ih hrest, List.splitOn_eq_singleton hname, List.cons_append]

theorem isAbsolute_pathOf (loc : Location) : (pathOf loc).isAbsolute = true := by
  rcases List.eq_nil_or_concat loc with rfl | ⟨_, _, rfl⟩
  · rfl
  · simp [pathOf, Path.isAbsolute]

/-- The path of a place has the names on the way there, after the slash it starts with. -/
theorem pieces_pathOf (h : ∀ name ∈ loc, Path.slash ∉ name) :
    (pathOf loc).pieces = [] :: (if loc = [] then [[]] else loc.reverse) := by
  by_cases hroot : loc = []
  · subst hroot
    rfl
  · rw [pathOf, if_neg hroot, if_neg hroot]
    exact splitOn_flatMap_slash h

section

variable {node : Node} (h : fs.node? loc = some node)

include h

theorem slash_notMem_of_node? : ∀ name ∈ loc, Path.slash ∉ name := by
  intro name hname
  have hpiece := (isProperName_iff.1 (isProperName_of_node? h name hname)).2.1
  simpa using hpiece.1

theorem steps_pathOf : (pathOf loc).steps = loc.reverse := by
  rw [Path.steps, pieces_pathOf (slash_notMem_of_node? h)]
  by_cases hroot : loc = []
  · subst hroot
    rfl
  · have hnames : ∀ name ∈ loc.reverse, (!isIdle name) = true := by
      intro name hname
      have hproper := isProperName_of_node? h name (List.mem_reverse.1 hname)
      simp [(isProperName_iff.1 hproper).1.1]
    rw [if_neg hroot, List.filter_cons_of_neg (by simp [isIdle]), List.filter_eq_self.2 hnames]

theorem fits_pathOf (hshort : (pathOf loc).bytes.length < maxPath) : Fits (pathOf loc) := by
  have hbytes : (pathOf loc).bytes ≠ [] := by
    intro hnil
    have habsolute := isAbsolute_pathOf loc
    simp [Path.isAbsolute, hnil] at habsolute
  refine ⟨?_, hbytes, hshort⟩
  have hzero : (0 : UInt8) ∉ (pathOf loc).bytes := by
    rw [pathOf]
    split
    · decide
    · intro hmem
      rcases List.mem_flatMap.1 hmem with ⟨name, hname, hbyte⟩
      have hproper := isProperName_of_node? h name (List.mem_reverse.1 hname)
      have hpiece := (isProperName_iff.1 hproper).2.1.2
      rcases List.mem_cons.1 hbyte with hslash | hbyte
      · exact absurd hslash (by decide)
      · simp [hbyte] at hpiece
  simpa using hzero

end

/-- The path of a plain place that is reachable leads there without following any link. -/
theorem follows_pathOf (h : IsPlain fs loc) (hreach : fs.IsReachable loc) :
    Follows fs 0 [] (pathOf loc).pieces loc := by
  have hnames : ∀ name ∈ loc, Path.slash ∉ name := by
    rcases h with ⟨node, hnode, -⟩
    exact slash_notMem_of_node? hnode
  rw [pieces_pathOf hnames]
  refine .idle (opens_nil (node?_root fs)) rfl ?_
  by_cases hroot : loc = []
  · subst hroot
    exact .idle (opens_nil (node?_root fs)) rfl .done
  · have hreversed : loc.reverse.reverse ++ [] = loc := by simp
    rw [if_neg hroot]
    rw [← hreversed] at h hreach
    simpa using follows_down h hreach

theorem resolve_pathOf (h : IsPlain fs loc) (hreach : fs.IsReachable loc)
    (hshort : (pathOf loc).bytes.length < maxPath) : fs.resolve .target (pathOf loc) = .ok loc := by
  have horigin : origin fs.cwd (pathOf loc) = [] := if_pos (isAbsolute_pathOf loc)
  have hfits : Fits (pathOf loc) := by
    rcases h with ⟨node, hnode, -⟩
    exact fits_pathOf hnode hshort
  refine resolve_iff.2 ⟨hfits, ?_⟩
  rw [horigin]
  exact (follows_pathOf h hreach).mono (Nat.zero_le maxLinks)

/-- A place whose path can be looked up is reachable. -/
theorem isReachable_of_resolve {found : Location} (h : IsPlain fs loc)
    (hresolve : fs.resolve .target (pathOf loc) = .ok found) : fs.IsReachable loc := by
  intro top habove hother
  have hfollows := (resolve_iff.1 hresolve).2
  have horigin : origin fs.cwd (pathOf loc) = [] := if_pos (isAbsolute_pathOf loc)
  have hsteps : Follows fs maxLinks [] loc.reverse found := by
    rcases h with ⟨node, hnode, -⟩
    rw [← steps_pathOf hnode, ← horigin]
    exact hfollows.thin (.filter _)
  apply hsteps.searched
  · simpa using h
  · exact List.nil_suffix
  · simpa using habove
  · simpa using hother

/-! ## Real paths -/

/-- The path is spelled out from the root, without dots, and on it stands no link. -/
structure IsReal (fs : FileSystem) (p : Path) : Prop where
  absolute : p.isAbsolute = true
  undotted : ∀ piece ∈ p.pieces, piece ≠ [Path.dot] ∧ piece ≠ [Path.dot, Path.dot]
  /-- However many of its steps are taken, they do not end at a link. -/
  unlinked : ∀ names, names <+: p.steps → ∀ target, fs.node? names.reverse ≠ some (.symlink target)

theorem isReal_pathOf (h : IsPlain fs loc) : IsReal fs (pathOf loc) where
  absolute := isAbsolute_pathOf loc
  undotted := by
    rcases h with ⟨node, hnode, -⟩
    intro piece hpiece
    rw [pieces_pathOf (slash_notMem_of_node? hnode)] at hpiece
    -- an empty piece, or one of the names of the place
    have hcases : piece = [] ∨ piece ∈ loc := by
      by_cases hroot : loc = []
      · simpa [hroot] using hpiece
      · simpa [hroot] using hpiece
    rcases hcases with rfl | hmem
    · exact ⟨nofun, nofun⟩
    · have hentry := (isProperName_iff.1 (isProperName_of_node? hnode piece hmem)).1
      constructor
      · rintro rfl
        exact absurd hentry.1 (by decide)
      · rintro rfl
        exact absurd hentry.2 (by decide)
  unlinked := by
    rcases h with ⟨node, hnode, hplain⟩
    rintro names ⟨rest, hsteps⟩ target hlink
    rw [steps_pathOf hnode] at hsteps
    have hloc : loc = rest.reverse ++ names.reverse := by
      rw [← List.reverse_append, hsteps, List.reverse_reverse]
    by_cases hend : rest = []
    · -- all steps are taken: that is the place itself
      subst hend
      rw [List.reverse_nil, List.nil_append] at hloc
      rw [← hloc, hnode] at hlink
      exact hplain target (Option.some.inj hlink)
    · rw [hloc] at hnode
      rw [directory_of_below hnode (by simpa using hend)] at hlink
      cases hlink

theorem isPlain_of_resolve {p : Path} (h : fs.resolve .target p = .ok loc) : IsPlain fs loc :=
  (resolve_iff.1 h).2.isPlain fun hnil => absurd hnil (pieces_ne_nil p)

/-- The system names a place by its path, if that can be looked up again. -/
theorem canonical_iff {p q : Path} :
    fs.canonical p = .ok q ↔ ∃ loc, fs.resolve .target p = .ok loc ∧ fs.IsReachable loc ∧
      (pathOf loc).bytes.length < maxPath ∧ q = pathOf loc := by
  cases hresolve : fs.resolve .target p with
  | error fault => simp [canonical, hresolve, bind, Except.bind]
  | ok loc =>
    have hplain : IsPlain fs loc := isPlain_of_resolve hresolve
    cases hback : fs.resolve .target (pathOf loc) with
    | error fault =>
      have hnone : ¬(fs.IsReachable loc ∧ (pathOf loc).bytes.length < maxPath) := by
        rintro ⟨hreach, hshort⟩
        rw [resolve_pathOf hplain hreach hshort] at hback
        cases hback
      have herror : fs.canonical p = .error fault := by
        simp [canonical, hresolve, hback, bind, Except.bind]
      rw [herror]
      refine ⟨nofun, ?_⟩
      rintro ⟨other, hother, hreach, hshort, -⟩
      cases hother
      exact absurd ⟨hreach, hshort⟩ hnone
    | ok found =>
      have hreach := isReachable_of_resolve hplain hback
      have hshort := (resolve_iff.1 hback).1.2.2
      simp [canonical, hresolve, hback, hreach, hshort, bind, Except.bind, pure, Except.pure,
        eq_comm]

/-- Real paths are kept as they are. -/
theorem canonical_pathOf (h : IsPlain fs loc) (hreach : fs.IsReachable loc)
    (hshort : (pathOf loc).bytes.length < maxPath) :
    fs.canonical (pathOf loc) = .ok (pathOf loc) :=
  canonical_iff.2 ⟨loc, resolve_pathOf h hreach hshort, hreach, hshort, rfl⟩

end FileSystem

/-! ## The root kernel -/

namespace BootLayout

/-- The link of the boot directory leads to a kernel at a place. -/
structure HasKernel (layout : BootLayout) (fs : FileSystem) (loc : Location) : Prop where
  /-- The link can be looked up, and followed there through as many links as the system allows. -/
  followed : Fits layout.rootKernelLink ∧ Follows fs maxLinks
    (origin fs.cwd layout.rootKernelLink) layout.rootKernelLink.pieces loc
  file : ∃ mode content, fs.node? loc = some (.file mode content)
  /-- The system can look the place up by its path: no directory above it is closed. -/
  reachable : fs.IsReachable loc
  /-- Nor is the place too deep for that. -/
  short : (pathOf loc).bytes.length < maxPath
  text : (pathOf loc).isText = true

variable {layout : BootLayout} {fs : FileSystem} {loc : Location}

namespace HasKernel

theorem resolves (h : layout.HasKernel fs loc) :
    fs.resolve .target layout.rootKernelLink = .ok loc :=
  resolve_iff.2 h.followed

theorem isPlain (h : layout.HasKernel fs loc) : IsPlain fs loc :=
  isPlain_of_resolve h.resolves

/-- The path of the place leads to it. -/
theorem leadsBack (h : layout.HasKernel fs loc) : fs.resolve .target (pathOf loc) = .ok loc :=
  resolve_pathOf h.isPlain h.reachable h.short

theorem isFile (h : layout.HasKernel fs loc) : fs.isFile (pathOf loc) = true := by
  rcases h.file with ⟨mode, content, hnode⟩
  exact isFile_iff.2 ⟨loc, mode, content, h.leadsBack, hnode⟩

end HasKernel

theorem resolveRootKernel_eq_ok_iff {p : Path} :
    layout.resolveRootKernel fs = .ok p ↔
      fs.canonical layout.rootKernelLink = .ok p ∧ p.isText = true := by
  rw [resolveRootKernel]
  cases fs.canonical layout.rootKernelLink with
  | error fault => simp [bind, Except.bind]
  | ok q =>
    by_cases htext : q.isText = true
    · simp only [htext, if_true, bind, Except.bind, pure, Except.pure, Except.ok.injEq]
      exact ⟨fun heq => ⟨heq, heq ▸ htext⟩, And.left⟩
    · have hother : ¬(q = p ∧ p.isText = true) := by
        rintro ⟨rfl, h⟩
        exact htext h
      simp [htext, hother, bind, Except.bind, throw, throwThe, MonadExceptOf.throw]

/-- The kernel that is found is the one that the link leads to, by its real path. -/
theorem kernelPath?_eq_some_iff {p : Path} :
    layout.kernelPath? fs = some p ↔ ∃ loc, layout.HasKernel fs loc ∧ p = pathOf loc := by
  have hfound : layout.kernelPath? fs = some p ↔
      layout.resolveRootKernel fs = .ok p ∧ fs.isFile p = true := by
    rw [kernelPath?, Option.filter_eq_some_iff]
    cases layout.resolveRootKernel fs <;> simp [Except.toOption]
  rw [hfound, resolveRootKernel_eq_ok_iff, canonical_iff]
  constructor
  · rintro ⟨⟨⟨loc, hresolve, hreach, hshort, rfl⟩, htext⟩, hfile⟩
    -- the real path leads back to the place, so that is where the file is
    rcases isFile_iff.1 hfile with ⟨other, mode, content, hother, hnode⟩
    have hback := resolve_pathOf (isPlain_of_resolve hresolve) hreach hshort
    cases hback.symm.trans hother
    exact ⟨loc, ⟨resolve_iff.1 hresolve, ⟨mode, content, hnode⟩, hreach, hshort, htext⟩, rfl⟩
  · rintro ⟨loc, hkernel, rfl⟩
    exact ⟨⟨⟨loc, hkernel.resolves, hkernel.reachable, hkernel.short, rfl⟩, hkernel.text⟩,
      hkernel.isFile⟩

/-- Looking for the kernel only logs. -/
theorem rootKernel?_run {σ : Type} (layout : BootLayout) (w : World σ) :
    Quiet w (layout.rootKernel?.run w).2 ∧
      (layout.rootKernel?.run w).1 = (layout.kernelPath? w.files).map (⟨·, .rootKernel⟩) := by
  rcases finds_kernel layout w with ⟨hquiet, hfound⟩
  have hturns : (layout.rootKernel?.run w).1.toList.map Turn.sign =
      (layout.kernelPath? w.files).toList.map fun p => .sign ⟨p, .rootKernel⟩ :=
    Except.ok.inj hfound
  refine ⟨hquiet, ?_⟩
  revert hturns
  cases (layout.rootKernel?.run w).1 <;> cases layout.kernelPath? w.files <;> simp

theorem rootKernel?_eq_some_iff {σ : Type} (layout : BootLayout) (w : World σ)
    (artifact : Artifact) :
    (layout.rootKernel?.run w).1 = some artifact ↔
      ∃ loc, layout.HasKernel w.files loc ∧ artifact = ⟨pathOf loc, .rootKernel⟩ := by
  rw [(rootKernel?_run layout w).2, Option.map_eq_some_iff]
  constructor
  · rintro ⟨p, hp, rfl⟩
    rcases kernelPath?_eq_some_iff.1 hp with ⟨loc, hkernel, rfl⟩
    exact ⟨loc, hkernel, rfl⟩
  · rintro ⟨loc, hkernel, rfl⟩
    exact ⟨pathOf loc, kernelPath?_eq_some_iff.2 ⟨loc, hkernel, rfl⟩, rfl⟩

end BootLayout

/-! ## Runs without a root kernel -/

section

variable {σ : Type}

open Orchestration

/-- The groups of a run that come before the root kernel. -/
def Orchestration.beforeKernel (layout : BootLayout) (plan : SigningPlan) (ops : ArtifactOps σ) :
    Attempt σ Summary := do
  let summary ← signAll ops .empty (← layout.bootloaders plan.bootloaders)
  let candidates ← (layout.crdybootCandidates plan.candidates : Action σ _)
  let summary ← treatCandidates ops summary candidates
  signAll ops summary (← layout.syslinuxKernels plan.syslinuxKernels)

theorem run_beforeKernel (layout : BootLayout) (plan : SigningPlan) (ops : ArtifactOps σ) :
    run layout plan ops = (do
      let summary ← beforeKernel layout plan ops
      let kernel ← (layout.rootKernel? : Action σ _)
      let summary ← signAll ops summary kernel.toList
      log .info .pipeline summary.describe
      return summary) := by
  simp only [run, beforeKernel, bind_assoc]

/-- Where no kernel is found, a run is at its end and succeeds. -/
theorem run_without_kernel {layout : BootLayout} {plan : SigningPlan} {ops : ArtifactOps σ}
    {start w : World σ} {summary : Summary}
    (hbefore : (beforeKernel layout plan ops).run.run start = (.ok summary, w))
    (hnone : (layout.rootKernel?.run w).1 = none) :
    ∃ w', (run layout plan ops).run.run start = (.ok summary, w') ∧ Quiet w w' := by
  rcases hfound : layout.rootKernel?.run w with ⟨found, w₁⟩
  have hquiet : Quiet w w₁ := by
    have hlogged := (BootLayout.rootKernel?_run layout w).1
    rwa [hfound] at hlogged
  rw [hfound] at hnone
  dsimp only at hnone
  subst hnone
  refine ⟨_, ?_, hquiet.trans (Quiet.log .info .pipeline summary.describe w₁)⟩
  rw [run_beforeKernel, run_bind, hbefore]
  show (match layout.rootKernel?.run w with
    | (kernel, w₁) => (do
      let summary ← signAll ops summary kernel.toList
      log .info .pipeline summary.describe
      return summary : Attempt σ Summary).run.run w₁) = _
  rw [hfound]
  rfl

end

/-! ## The root kernel of a boot directory -/

/--
A root kernel is found exactly if the link of the boot directory can be followed to a regular file
with a path that is text.  That path is then the real one: it leads to the same file, it is the path
of the file already, and it has a file name.  In every other case there is no kernel, which is only
logged, and a run that has come to this point succeeds without one.
-/
theorem rootKernel_real {σ : Type} (layout : BootLayout) (w : World σ) :
    let found := layout.rootKernel?.run w
    ((∃ artifact, found.1 = some artifact) ↔ ∃ loc, layout.HasKernel w.files loc) ∧
      (∀ artifact, found.1 = some artifact →
        w.files.IsReal artifact.path ∧
        (∃ loc, w.files.resolve .target layout.rootKernelLink = .ok loc ∧
          w.files.resolve .target artifact.path = .ok loc) ∧
        (∃ name, artifact.path.fileName? = some name) ∧
        w.files.canonical artifact.path = .ok artifact.path) ∧
      ((¬∃ loc, layout.HasKernel w.files loc) →
        found.1 = none ∧ Quiet w found.2 ∧
          ∀ (plan : SigningPlan) (ops : ArtifactOps σ) (start : World σ) (summary : Summary),
            (Orchestration.beforeKernel layout plan ops).run.run start = (.ok summary, w) →
            ∃ w', (Orchestration.run layout plan ops).run.run start = (.ok summary, w') ∧
              Quiet w w') := by
  intro found
  have hfound := BootLayout.rootKernel?_eq_some_iff layout w
  refine ⟨⟨?_, ?_⟩, ?_, ?_⟩
  · rintro ⟨artifact, hsome⟩
    rcases (hfound artifact).1 hsome with ⟨loc, hkernel, -⟩
    exact ⟨loc, hkernel⟩
  · rintro ⟨loc, hkernel⟩
    exact ⟨_, (hfound _).2 ⟨loc, hkernel, rfl⟩⟩
  · intro artifact hsome
    rcases (hfound artifact).1 hsome with ⟨loc, hkernel, rfl⟩
    exact ⟨isReal_pathOf hkernel.isPlain,
      ⟨loc, hkernel.resolves, hkernel.leadsBack⟩, fileName?_isSome_of_isFile hkernel.isFile,
      canonical_pathOf hkernel.isPlain hkernel.reachable hkernel.short⟩
  · intro hnone
    have habsent : found.1 = none := by
      cases hsome : found.1 with
      | none => rfl
      | some artifact =>
        rcases (hfound artifact).1 hsome with ⟨loc, hkernel, -⟩
        exact absurd ⟨loc, hkernel⟩ hnone
    exact ⟨habsent, (BootLayout.rootKernel?_run layout w).1, fun plan ops start summary hbefore =>
      run_without_kernel hbefore habsent⟩

/-- A link to a link, past a link to a directory that starts with two dots. -/
def SmallBoot.linkedKernel : FileSystem :=
  Entry.applyAll .empty
    [⟨"/store/vmlinuz-6", .file [], none⟩, ⟨"/store/current", .symlink "/store/./vmlinuz-6", none⟩,
      ⟨"/boot/kernels", .symlink "../store", none⟩,
      ⟨"/boot/vmlinuz", .symlink "kernels/current", none⟩]

theorem rootKernel_real_linked :
    let w : World Unit := ⟨SmallBoot.linkedKernel, (), []⟩
    let kernel : Artifact := ⟨"/store/vmlinuz-6", .rootKernel⟩
    (BootLayout.rootKernel? ⟨"/boot"⟩ |>.run w).1 = some kernel ∧
      w.files.IsReal kernel.path ∧ w.files.canonical kernel.path = .ok kernel.path := by
  intro w kernel
  have hsome : (BootLayout.rootKernel? ⟨"/boot"⟩ |>.run w).1 = some kernel := by decide +kernel
  rcases (rootKernel_real ⟨"/boot"⟩ w).2.1 kernel hsome with ⟨hreal, -, -, hcanonical⟩
  exact ⟨hsome, hreal, hcanonical⟩

end BootSigning
