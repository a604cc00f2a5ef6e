import BootSigning.Proofs.Components
import BootSigning.Proofs.Onward

/-!
# Repetition — when a glob lists a file once

The files that a glob selects are put in the order of their paths, and nothing takes out a file that
the walk came to twice.  Whether it can depends on the pattern alone: the components of the
directory, which come first, stand for one name each.

* `ArtifactGlob.slack`: how many components of a pattern can stand for different numbers of steps;
* `Path.Before`: the strict order of paths;
* `nodup_search`: with little slack the walk of a pattern comes to each file once.

`matchingFiles_ascending` says what is listed and handed on, `repeated_by_two_trees` that two `**`
do list a file twice.
-/

namespace BootSigning
namespace Glob

variable {segments : List Segment}

/-! ## Patterns below a directory -/

/-- Components that stand for one name each have no slack. -/
theorem slack_collapse_append {pieces : List (List Char)} {front : List Segment}
    (h : StandAll pieces front) (segments : List Segment) :
    slack (collapse (front ++ segments)) = slack (collapse segments) := by
  induction h with
  | nil => rfl
  | cons hpiece _ ih =>
    cases hpiece with
    | literal =>
      rw [List.cons_append, collapse, slack, ih]
      · rfl
      · intros; contradiction
      · intros; contradiction
    | wild haccepts hname =>
      rw [List.cons_append, collapse, slack, ih]
      · simp [loose, dotNames_wild haccepts hname]
      · intros; contradiction
      · intros; contradiction

theorem componentsOf_of_pieces {body pattern : List Char} {front : List (List Char)}
    (h : body.splitOn '/' = front ++ pattern.splitOn '/') :
    componentsOf body = front ++ componentsOf pattern := by
  have hsome : pattern.splitOn '/' ≠ [] := List.splitOn_ne_nil '/' pattern
  rw [componentsOf, componentsOf, h, List.getLast?_append_of_ne_nil _ hsome]
  split
  · exact List.dropLast_append_of_ne_nil hsome
  · rfl

/-- What a pattern that can be evaluated is evaluated by. -/
theorem search_of_pattern {pattern : List Char} {search : Search}
    (h : Search.ofPattern pattern = .ok search) :
    search.directoriesOnly = (pattern.getLast? == some '/') ∧
      ∃ segments, (componentsOf (bodyOf pattern)).mapM Segment.compile = .ok segments ∧
        (search.directoriesOnly = false → search.segments = collapse segments) := by
  rw [Search.ofPattern] at h
  cases hcompile : compile pattern with
  | error fault => simp [hcompile, bind, Except.bind] at h
  | ok tokens =>
    have hbody : componentsOf (if pattern.head? == some '/' then pattern.drop 1 else pattern) =
        componentsOf (bodyOf pattern) := rfl
    simp only [hcompile, bind, Except.bind, hbody] at h
    cases hsegments : (componentsOf (bodyOf pattern)).mapM Segment.compile with
    | error fault => simp [hsegments] at h
    | ok segments =>
      simp only [hsegments, pure, Except.pure, Except.ok.injEq] at h
      subst h
      refine ⟨rfl, segments, rfl, ?_⟩
      intro hend
      -- only the root itself has no components, and it counts directories
      have hbelow : ¬(pattern.head? == some '/' && (bodyOf pattern).isEmpty) = true := by
        intro hroot
        rcases Bool.and_eq_true_iff.1 hroot with ⟨habsolute, hempty⟩
        cases pattern with
        | nil => cases habsolute
        | cons c rest =>
          have hc : c = '/' := by simpa using habsolute
          have hrest : rest = [] := by simpa [bodyOf, hc] using hempty
          simp [hc, hrest] at hend
      exact congrArg collapse (if_neg hbelow)

end Glob

/-! ## The order of paths -/

namespace Path

/-- The name of a step, as a component gives it. -/
def Component.name? : Component → Option Name
  | .root | .here => none
  | .up => some [dot, dot]
  | .named name => some name

theorem Component.name?_componentOf (name : Name) :
    (FileSystem.componentOf name).name? = some name := by
  by_cases hup : name = [dot, dot] <;>
    simp [FileSystem.componentOf, FileSystem.isUp, Component.name?, hup]

/-- The steps of a path can be read off its components. -/
theorem steps_of_components (p : Path) : p.components.filterMap Component.name? = p.steps := by
  have hfront : p.front.filterMap Component.name? = [] := by
    rw [front]
    split
    · rfl
    · split <;> rfl
  have hnames : Component.name? ∘ FileSystem.componentOf = some :=
    funext Component.name?_componentOf
  rw [components_eq, List.filterMap_append, hfront, List.filterMap_map, hnames,
    List.filterMap_some, List.nil_append]

theorem Component.key_injective : Function.Injective Component.key := by
  intro c d h
  have hnames : Function.Injective (List.map UInt8.toNat) :=
    List.map_injective_iff.2 fun a b => UInt8.toNat_inj.1
  -- components of different kinds have keys that start differently
  cases c <;> cases d <;> simp only [Component.key, List.cons.injEq] at h
  case named.named name other => rw [hnames h.2]
  all_goals first | rfl | cases h.1

/-- Paths that are in order both ways have the same components. -/
theorem components_of_le {p q : Path} (h : p.le q = true) (h' : q.le p = true) :
    p.components = q.components := by
  have hbytes : ∀ n m : Nat, Nat.ble n m = true → Nat.ble m n = true → n = m :=
    fun n m hnm hmn => Nat.le_antisymm (Nat.le_of_ble_eq_true hnm) (Nat.le_of_ble_eq_true hmn)
  have hkey : p.key = q.key := lexLe_antisymm (lexLe_antisymm hbytes) p.key q.key h h'
  exact Component.key_injective.list_map hkey

/-- One path comes before another, and not the other way. -/
def Before (p q : Path) : Prop := p.le q = true ∧ q.le p = false

theorem before_of_le {p q : Path} (h : p.le q = true) (hne : p.steps ≠ q.steps) : p.Before q := by
  refine ⟨h, ?_⟩
  apply Bool.eq_false_iff.2
  intro hback
  apply hne
  rw [← steps_of_components p, components_of_le h hback, steps_of_components]

end Path

/-- What is asked for where everything is to be signed. -/
theorem callsOf_signs (artifacts : List Artifact) (verdicts : List Bool) :
    callsOf (artifacts.map .sign) verdicts = artifacts.map fun a => .sign a.path := by
  induction artifacts with
  | nil => rfl
  | cons a rest ih => exact congrArg (OpCall.sign a.path :: ·) ih

/-! ## Selections -/

namespace ArtifactGlob

open Glob (Segment componentsOf collapse stepsOfFiles expand)

/--
How many components of the pattern can stand for different numbers of steps.  None counts if the
pattern asks for directories.
-/
def slack (g : ArtifactGlob) : Nat :=
  if g.pattern.toList.getLast? = some '/' then 0
  else match (componentsOf g.pattern.toList).mapM Segment.compile with
    | .ok segments => Glob.slack (collapse segments)
    | .error _ => 0

/-- A pattern that does not ask for directories has the slack of its components. -/
theorem slack_of_components {g : ArtifactGlob} {segments : List Segment}
    (hend : g.pattern.toList.getLast? ≠ some '/')
    (h : (componentsOf g.pattern.toList).mapM Segment.compile = .ok segments) :
    g.slack = Glob.slack (collapse segments) := by
  rw [slack, if_neg hend, h]

/-- The slack of a pattern is that of its walk below any directory. -/
theorem slack_below {g : ArtifactGlob} {dir : Path} {search : Glob.Search}
    (h : Glob.Search.ofPattern (g.below dir) = .ok search)
    (hfiles : search.directoriesOnly = false) : Glob.slack search.segments = g.slack := by
  rcases Glob.search_of_pattern h with ⟨honly, segments, hsegments, hsearch⟩
  -- the components of the directory come first, and stand for one name each
  rcases Glob.pieces_below dir.text.toList g.pattern.toList with ⟨names, hnames, hpieces⟩
  rcases Glob.mapM_escape hnames with ⟨front, hstands, hfront⟩
  have hcomponents : componentsOf (Glob.bodyOf (g.below dir)) =
      names.map Glob.escape ++ componentsOf g.pattern.toList :=
    Glob.componentsOf_of_pieces hpieces
  rw [hcomponents, List.mapM_append, hfront] at hsegments
  have hend : g.pattern.toList.getLast? ≠ some '/' := by
    intro hslash
    have hwhole : (g.below dir).getLast? = some '/' := by
      rw [below, List.getLast?_append, List.getLast?_cons, hslash]
      rfl
    rw [hfiles, hwhole] at honly
    cases honly
  cases hown : (componentsOf g.pattern.toList).mapM Segment.compile with
  | error fault => simp [hown, bind, Except.bind] at hsegments
  | ok own =>
    have hall : front ++ own = segments := by
      simpa [hown, bind, Except.bind, pure, Except.pure] using hsegments
    calc Glob.slack search.segments
        = Glob.slack (collapse (front ++ own)) := by rw [hsearch hfiles, hall]
      _ = Glob.slack (collapse own) := Glob.slack_collapse_append hstands own
      _ = g.slack := (slack_of_components hend hown).symm

/-- With little slack no two paths that a pattern leads to lead to files by the same steps. -/
theorem nodup_search {g : ArtifactGlob} {dir : Path} {search : Glob.Search}
    (h : Glob.Search.ofPattern (g.below dir) = .ok search) (hslack : g.slack ≤ 1)
    (fs : FileSystem) :
    (stepsOfFiles fs (expand fs search.directoriesOnly search.segments search.start)).Nodup := by
  cases hdirectories : search.directoriesOnly with
  | true =>
    rw [Glob.stepsOfFiles_eq_nil fun p => Glob.isFile_expand_only]
    exact List.nodup_nil
  | false =>
    apply Glob.nodup_expand (Glob.isSlashless_search h)
    rwa [slack_below h hdirectories]

/-- With little slack no two files of a selection have the same steps. -/
theorem nodup_select {g : ArtifactGlob} {fs : FileSystem} {dir : Path} {selection : Selection}
    (h : g.select fs dir = .ok selection) (hslack : g.slack ≤ 1) :
    (selection.files.map Path.steps).Nodup := by
  rw [select] at h
  cases hsearch : Glob.Search.ofPattern (g.below dir) with
  | error fault => simp [hsearch] at h
  | ok search =>
    simp only [hsearch, Except.ok.injEq] at h
    subst h
    let paths := expand fs search.directoriesOnly search.segments search.start
    have hfound : (stepsOfFiles fs paths).Nodup := nodup_search hsearch hslack fs
    -- being text leaves some of them out, and the order they are put in repeats none
    have hfewer : ((paths.filter fun p => p.isText && fs.isFile p).map Path.steps).Sublist
        (stepsOfFiles fs paths) := by
      rw [← List.filter_filter]
      exact List.filter_sublist.map Path.steps
    have hsame : ((filesAmong fs paths).map Path.steps).Perm
        ((paths.filter fun p => p.isText && fs.isFile p).map Path.steps) :=
      (List.mergeSort_perm _ _).map Path.steps
    rw [choose_files_run fs (Glob.isSlashless_search hsearch)]
    exact hsame.nodup_iff.2 (hfound.sublist hfewer)

/-- With little slack the files of a selection are in strict order. -/
theorem ascending_of_select {g : ArtifactGlob} {fs : FileSystem} {dir : Path}
    {selection : Selection} (h : g.select fs dir = .ok selection) (hslack : g.slack ≤ 1) :
    selection.files.Pairwise Path.Before := by
  have hdistinct : selection.files.Pairwise fun p q => p.steps ≠ q.steps :=
    List.pairwise_map.1 (nodup_select h hslack)
  apply (hdistinct.and (sorted_of_select h)).imp
  intro p q hboth
  exact Path.before_of_le hboth.2 hboth.1

variable {σ : Type}

/--
What a glob returns are regular files in the order of their paths, and in strict order if at most
one component of the pattern can stand for different numbers of steps.  A loop over them hands each
one to be signed, in this order and as often as it is listed, up to the first failure.
-/
theorem matchingFiles_ascending (g : ArtifactGlob) (dir : Path) {w : World σ} {files : List Path}
    (h : ((g.matchingFiles dir).run.run w).1 = .ok files) :
    (∀ p ∈ files, w.files.isFile p = true) ∧
      (files.Pairwise fun p q => p.le q = true) ∧
      (g.slack ≤ 1 → files.Pairwise Path.Before) ∧
      ∀ (ops : ArtifactOps σ) (w' : World σ) (s : Summary) (tag : ArtifactGroup),
        Goes ops w' (Orchestration.signAll ops s (files.map (⟨·, tag⟩))) fun steps _ =>
          (deedsOf steps).map Deed.call =
            (files.map OpCall.sign).take ((deedsOf steps).findIdx Deed.failed + 1) := by
  rw [(matchingFiles_selects g dir w).2] at h
  cases hselect : g.select w.files dir with
  | error e => simp [hselect, Except.map] at h
  | ok selection =>
    simp only [hselect, Except.map, Except.ok.injEq] at h
    subst h
    refine ⟨isFile_of_select hselect, sorted_of_select hselect, ascending_of_select hselect, ?_⟩
    intro ops w' s tag
    apply (goes_signAll ops w' s _).mono
    intro steps r htaken
    rw [htaken.calls, callsOf_signs, List.map_map]
    rfl

/-- If a walk comes to regular files in the order of their paths, they are returned as they are. -/
theorem matchingFiles_of_walk {g : ArtifactGlob} {dir : Path} {w : World σ} {found : List Path}
    (hwalk : (Glob.Search.ofPattern (g.below dir)).toOption.map (·.run w.files) =
      some (found.map .ok))
    (hfiles : ∀ p ∈ found, (p.isText && w.files.isFile p) = true)
    (hsorted : found.Pairwise fun p q => p.le q = true) :
    ((g.matchingFiles dir).run.run w).1 = .ok found := by
  cases hsearch : Glob.Search.ofPattern (g.below dir) with
  | error fault => simp [hsearch, Except.toOption] at hwalk
  | ok search =>
    have hrun : search.run w.files = found.map .ok := by
      simpa [hsearch, Except.toOption] using hwalk
    have hpaths : (found.map Except.ok).filterMap
        (Except.toOption : Except Glob.Unreadable Path → Option Path) = found := by
      rw [List.filterMap_map]
      exact List.filterMap_some
    have hchoose : (choose w.files (found.map .ok)).files = found := by
      rw [choose, hpaths, List.filter_eq_self.2 hfiles, List.mergeSort_of_pairwise hsorted]
    rw [(matchingFiles_selects g dir w).2, select, hsearch]
    exact congrArg Except.ok (hrun ▸ hchoose)

/-- Any number of directories, then a name with the ending of bootloaders. -/
def bootloadersBelow : ArtifactGlob := ⟨"**/*.efi", by decide +kernel⟩

/-- A bootloader two directories below is handed on once. -/
theorem bootloadersBelow_ascending :
    let w : World Nat := ⟨SmallBoot.files, 0, []⟩
    let files := [Path.ofString "/boot/efi/boot/bootx64.efi"]
    ((bootloadersBelow.matchingFiles "/boot").run.run w).1 = .ok files ∧
      bootloadersBelow.slack ≤ 1 ∧
      (∀ p ∈ files, w.files.isFile p = true) ∧ files.Pairwise Path.Before ∧
      ∀ (ops : ArtifactOps Nat) (s : Summary),
        Goes ops w (Orchestration.signAll ops s (files.map (⟨·, .bootloader⟩))) fun steps _ =>
          (deedsOf steps).map Deed.call =
            (files.map OpCall.sign).take ((deedsOf steps).findIdx Deed.failed + 1) := by
  intro w files
  have hfound : ((bootloadersBelow.matchingFiles "/boot").run.run w).1 = .ok files := by
    apply matchingFiles_of_walk
    · decide +kernel
    · decide +kernel
    · exact List.pairwise_singleton _ _
  have hslack : bootloadersBelow.slack ≤ 1 := by decide +kernel
  rcases matchingFiles_ascending bootloadersBelow "/boot" hfound with
    ⟨hfiles, _, hascending, hloop⟩
  refine ⟨hfound, hslack, hfiles, hascending hslack, ?_⟩
  intro ops s
  exact hloop ops w s .bootloader

/-- Any number of directories, `a`, any number of directories, then a name. -/
def twoTrees : ArtifactGlob := ⟨"**/a/**/b.efi", by decide +kernel⟩

/-- A directory `a` in a directory `a`, and one regular file in it. -/
def nestedFile : FileSystem where
  nodes := [(SmallBoot.place ["a"], .directory), (SmallBoot.place ["a", "a"], .directory),
    (SmallBoot.place ["a", "a", "b.efi"], .file 0o644 [])]
  cwd := []
  distinct := by decide +kernel
  hangs := by decide +kernel
  proper := by decide +kernel

/-- Each of the two directories may be the `a` of the pattern, so the file is listed twice. -/
theorem repeated_by_two_trees :
    let file := Path.ofString "/a/a/b.efi"
    ((twoTrees.matchingFiles "/" : Attempt Nat (List Path)).run.run ⟨nestedFile, 0, []⟩).1 =
        .ok [file, file] ∧
      ¬[file, file].Pairwise Path.Before := by
  intro file
  refine ⟨?_, ?_⟩
  · apply matchingFiles_of_walk
    · decide +kernel
    · decide +kernel
    · decide +kernel
  · intro hascending
    have hbefore : file.Before file := (List.pairwise_pair.1 hascending)
    rw [Path.Before, hbefore.1] at hbefore
    cases hbefore.2

end ArtifactGlob
end BootSigning
