import BootSigning.Proofs.Choice
import Mathlib.Data.List.Basic

/-!
# Reports — what a walk finds, whatever it could not list

A walk takes a listing's word for which of its names are directories, and reports a directory that
it cannot list.  Looked up by itself, a path may turn out not to be the directory that a listing
told of: its own directory may be closed to look-ups, or the path too long.  Then nothing below it
can be looked up either, so for the files that a walk comes to, the listings are as good as look-ups.

* `Lost`: a path that leads nowhere, as all below it do;
* `Spot.IsFair`: what a walk takes a path for is what a look-up says, or the path is lost;
* `filesIn`: the regular files among what a walk comes upon.

`filesIn_walk` compares a walk with the paths of `expand`, each looked up by itself, and
`ArtifactGlob.choose_files_run` says what is selected.
-/

namespace BootSigning
namespace Glob

open FileSystem (isIdle IsEntry)

variable {fs : FileSystem} {dir : Path} {name : Name} {spot : Spot}

/-! ## Paths that lead nowhere -/

/-- The path leads nowhere, and what is below it is below it by its spelling. -/
structure Lost (fs : FileSystem) (dir : Path) : Prop where
  some : dir.bytes ≠ []
  not_start : isStart dir = false
  nowhere : ∀ loc, fs.resolve .target dir ≠ .ok loc

namespace Lost

theorem walked (h : Lost fs dir) : Walked dir :=
  ⟨h.some, fun hstart => by simp [h.not_start] at hstart⟩

/-- What is below a lost path is lost. -/
theorem child (h : Lost fs dir) (hslash : Path.slash ∉ name) : Lost fs (childPath dir name) where
  some := (h.walked.child hslash fun hstart => by simp [h.not_start] at hstart).some
  not_start := by
    rw [childPath_of_not_start h.not_start]
    exact not_isStart_join h.some hslash h.not_start
  nowhere := by
    intro loc hresolve
    rcases resolve_of_child h.walked hslash hresolve with ⟨parent, hparent, _⟩
    exact h.nowhere parent hparent

theorem isDirectory (h : Lost fs dir) : fs.isDirectory dir = false := by
  cases hdir : fs.isDirectory dir with
  | false => rfl
  | true =>
    rcases FileSystem.isDirectory_iff.1 hdir with ⟨loc, hresolve, _⟩
    exact absurd hresolve (h.nowhere loc)

theorem isFile (h : Lost fs dir) : fs.isFile dir = false := by
  cases hfile : fs.isFile dir with
  | false => rfl
  | true =>
    rcases FileSystem.isFile_iff.1 hfile with ⟨loc, _, _, hresolve, _⟩
    exact absurd hresolve (h.nowhere loc)

end Lost

/-- An entry whose path leads nowhere is lost; no entry is the dot that a walk starts from. -/
theorem lost_child (hsome : dir.bytes ≠ []) (hslash : Path.slash ∉ name) (hname : IsEntry name)
    (hnowhere : ∀ loc, fs.resolve .target (childPath dir name) ≠ .ok loc) :
    Lost fs (childPath dir name) := by
  cases hstart : isStart dir with
  | true =>
    have hpath : childPath dir name = ⟨name⟩ := by rw [childPath, if_pos hstart]
    rw [hpath] at hnowhere ⊢
    refine ⟨FileSystem.ne_nil_of_not_idle hname.1, Bool.eq_false_iff.2 fun hdot => ?_, hnowhere⟩
    have hidle := hname.1
    rw [name_of_isStart hslash hdot] at hidle
    cases hidle
  | false =>
    rw [childPath_of_not_start hstart] at hnowhere ⊢
    refine ⟨?_, not_isStart_join hsome hslash hstart, hnowhere⟩
    rcases join_bytes dir hslash with hbytes | hbytes <;> simp [hbytes, hsome]

/-! ## Spots -/

namespace Spot

/-- A walk takes the path for what it is, or the path is lost. -/
def IsFair (fs : FileSystem) (spot : Spot) : Prop :=
  spot.isDirectory = fs.isDirectory spot.path ∨ Lost fs spot.path

theorem isFair_lookUp (fs : FileSystem) (path : Path) : (lookUp fs path).IsFair fs := .inl rfl

theorem path_listed (fs : FileSystem) (path : Path) (node : Option Node) :
    (listed fs path node).path = path := by
  unfold listed
  split <;> rfl

/-- What a listing tells of a name in a directory is what a look-up says of the name's path. -/
theorem isFair_listed {loc : Location} {node : Node} (hdir : fs.resolve .target dir = .ok loc)
    (hnode : fs.node? (name :: loc) = some node) :
    (listed fs (childPath dir name) (some node)).IsFair fs := by
  rcases FileSystem.isName_of_isProperName (FileSystem.parent_of_node? hnode).1 with
    ⟨hslash, hname⟩
  have hsome : dir.bytes ≠ [] := (FileSystem.walk_of_resolve hdir).2.1
  cases hchild : fs.resolve .target (childPath dir name) with
  | error fault =>
    refine .inr ?_
    rw [path_listed]
    exact lost_child hsome hslash hname (by simp [hchild])
  | ok found =>
    have hsteps : (childPath dir name).steps = dir.steps ++ [name] := by
      rw [steps_child dir hslash, Path.steps_name hslash, hname.1]
      rfl
    have hplace : (∀ target, node ≠ .symlink target) → found = name :: loc := by
      intro hplain
      refine FileSystem.resolve_entry hdir hchild (isAbsolute_child dir hslash) hsteps hname ?_
      simpa [hnode] using hplain
    refine .inl ?_
    cases node with
    | symlink target => rfl
    | directory =>
      have hfound := hplace (by simp)
      exact (FileSystem.isDirectory_iff.2 ⟨_, hfound ▸ hchild, hnode⟩).symm
    | file mode content =>
      rw [hplace (by simp)] at hchild
      simp [listed, FileSystem.isDirectory, FileSystem.stat_of_resolve hchild hnode]
    | sink =>
      rw [hplace (by simp)] at hchild
      simp [listed, FileSystem.isDirectory, FileSystem.stat_of_resolve hchild hnode]

/-- A directory that is listed has its names and their paths, each taken for what it is. -/
theorem children_ok {listing : List (Name × Spot)} (h : children fs spot = .ok listing) :
    isListed fs spot.path = true ∧
      listing.map (fun child => (child.1, child.2.path)) = Glob.children fs spot.path ∧
      ∀ child ∈ listing, child.2.IsFair fs := by
  rw [children] at h
  cases hopen : fs.openDirectory spot.path with
  | error fault => simp [hopen] at h
  | ok loc =>
    simp only [hopen, Except.ok.injEq] at h
    subst h
    refine ⟨isListed_iff.2 ⟨loc, hopen⟩, ?_, ?_⟩
    · simp [Glob.children, FileSystem.namesAt, hopen, path_listed]
    · intro child hchild
      rcases List.mem_map.1 hchild with ⟨name, hmem, rfl⟩
      rcases FileSystem.mem_names_iff.1 (mem_sortNames.1 hmem) with ⟨node, hnode⟩
      have hdir := (FileSystem.openDirectory_eq_ok_iff.1 hopen).1
      show (listed fs _ (fs.node? (name :: loc))).IsFair fs
      rw [hnode]
      exact isFair_listed hdir hnode

theorem children_error {unreadable : Unreadable} (h : children fs spot = .error unreadable) :
    isListed fs spot.path = false := by
  rw [children] at h
  cases hopen : fs.openDirectory spot.path with
  | error fault => simp [isListed, hopen, Except.isOk, Except.toBool]
  | ok loc => simp [hopen] at h

theorem children_lost (h : Lost fs spot.path) :
    ∃ unreadable, children fs spot = .error unreadable := by
  rw [children]
  cases hopen : fs.openDirectory spot.path with
  | error fault => exact ⟨_, rfl⟩
  | ok loc => exact absurd (FileSystem.openDirectory_eq_ok_iff.1 hopen).1 (h.nowhere loc)

end Spot

theorem isDirectory_of_isListed (h : isListed fs dir = true) : fs.isDirectory dir = true := by
  rcases isListed_iff.1 h with ⟨loc, hopen⟩
  rcases FileSystem.openDirectory_eq_ok_iff.1 hopen with ⟨hresolve, hdir, _⟩
  exact FileSystem.isDirectory_iff.2 ⟨loc, hresolve, hdir⟩

theorem children_of_not_listed (h : isListed fs dir = false) : children fs dir = [] := by
  simp [children, namesAt_of_not_listed h, sortNames]

theorem descendants_of_not_listed (h : isListed fs dir = false) (depth : Nat) :
    descendants fs depth dir = [] := by
  cases depth with
  | zero => rfl
  | succ depth => rw [descendants, children_of_not_listed h, List.flatMap_nil]

theorem not_listed_of_not_directory (h : fs.isDirectory dir = false) : isListed fs dir = false := by
  cases hlisted : isListed fs dir with
  | false => rfl
  | true =>
    rw [isDirectory_of_isListed hlisted] at h
    cases h

theorem isFile_of_isDirectory {p : Path} (h : fs.isDirectory p = true) : fs.isFile p = false := by
  rw [FileSystem.isFile, FileSystem.stat_of_isDirectory h]

/-! ## The files that a walk comes to -/

/-- The regular files among what a walk comes upon. -/
def filesIn (fs : FileSystem) (found : List (Except Unreadable Path)) : List Path :=
  (found.filterMap Except.toOption).filter fs.isFile

theorem filesIn_append (found more : List (Except Unreadable Path)) :
    filesIn fs (found ++ more) = filesIn fs found ++ filesIn fs more := by
  rw [filesIn, List.filterMap_append, List.filter_append]
  rfl

theorem filesIn_flatMap {α : Type} (items : List α) (f : α → List (Except Unreadable Path)) :
    filesIn fs (items.flatMap f) = items.flatMap fun a => filesIn fs (f a) := by
  induction items with
  | nil => rfl
  | cons a rest ih => rw [List.flatMap_cons, filesIn_append, ih, List.flatMap_cons]

/-- The component, if it spells a name, spells one without a slash. -/
def Segment.IsSlashless : Segment → Prop
  | .literal name => '/' ∉ name
  | .wild _ | .tree => True

/-- A walk that comes to a lost path for a directory can report that, and no more. -/
theorem descendants_lost (h : Lost fs spot.path) (depth : Nat) :
    spot.descendants fs depth = [] ∨
      ∃ unreadable, spot.descendants fs depth = [.error unreadable] := by
  cases depth with
  | zero => exact .inl rfl
  | succ depth =>
    rcases Spot.children_lost h with ⟨unreadable, hchildren⟩
    rw [Spot.descendants, hchildren]
    split
    · exact .inr ⟨unreadable, rfl⟩
    · exact .inl rfl

variable {only : Bool} {segments : List Segment}

/-- From a lost path a walk comes to no file. -/
theorem filesIn_of_lost (hslash : ∀ segment ∈ segments, segment.IsSlashless)
    (h : Lost fs spot.path) : filesIn fs (walk fs only segments spot) = [] := by
  induction segments generalizing spot with
  | nil =>
    rw [walk]
    split
    · rfl
    · simp [filesIn, Except.toOption, h.isFile]
  | cons segment rest ih =>
    rcases List.forall_mem_cons.1 hslash with ⟨hsegment, hrest⟩
    cases segment with
    | literal name =>
      -- only a spelled name takes a walk further, to what is lost as well
      simp only [walk]
      split
      · exact ih hrest (h.child (slash_not_mem_nameOf hsegment))
      · rfl
    | wild tokens =>
      rcases Spot.children_lost h with ⟨unreadable, hchildren⟩
      simp only [walk, hchildren]
      split <;> rfl
    | tree =>
      cases rest with
      | nil =>
        rw [walk]
        rcases descendants_lost h FileSystem.maxPath with hnone | ⟨unreadable, hone⟩
        · rw [hnone]
          rfl
        · rw [hone]
          rfl
      | cons next others =>
        rw [walk]
        rcases descendants_lost h FileSystem.maxPath with hnone | ⟨unreadable, hone⟩
        · rw [hnone]
          rfl
        · rw [hone]
          rfl

/-- For the files that a walk comes to, a fair spot is as good as a look-up of its path. -/
theorem filesIn_of_fair (hslash : ∀ segment ∈ segments, segment.IsSlashless)
    (hlookUp : ∀ path, filesIn fs (walk fs only segments (.lookUp fs path)) =
      (expand fs only segments path).filter fs.isFile)
    (h : spot.IsFair fs) : filesIn fs (walk fs only segments spot) =
      (expand fs only segments spot.path).filter fs.isFile := by
  rcases h with hsame | hlost
  · have hspot : spot = .lookUp fs spot.path := by
      rw [Spot.lookUp, ← hsame]
    rw [hspot]
    exact hlookUp spot.path
  · have hlost' : Lost fs (Spot.lookUp fs spot.path).path := hlost
    rw [← hlookUp, filesIn_of_lost hslash hlost, filesIn_of_lost hslash hlost']

theorem descendants_of_directory (fs : FileSystem) (depth : Nat) (dir : Path) :
    (if fs.isDirectory dir then descendants fs depth dir else []) = descendants fs depth dir := by
  split
  · rfl
  · rename_i hdir
    exact (descendants_of_not_listed (not_listed_of_not_directory (by simpa using hdir)) depth).symm

/-- What comes of all below a directory, if it is the same for every one of its descendants. -/
theorem filesIn_descendants {f : Except Unreadable (Name × Spot) → List (Except Unreadable Path)}
    {g : Name × Path → List Path} (hreport : ∀ unreadable, filesIn fs (f (.error unreadable)) = [])
    (hnode : ∀ node : Name × Spot, node.2.IsFair fs →
      filesIn fs (f (.ok node)) = (g (node.1, node.2.path)).filter fs.isFile)
    (depth : Nat) (h : spot.IsFair fs) :
    filesIn fs ((spot.descendants fs depth).flatMap f) =
      ((descendants fs depth spot.path).flatMap g).filter fs.isFile := by
  induction depth generalizing spot with
  | zero => rfl
  | succ depth ih =>
    rcases h with hsame | hlost
    · rw [Spot.descendants]
      cases hdir : spot.isDirectory with
      | false =>
        rw [hdir] at hsame
        rw [descendants_of_not_listed (not_listed_of_not_directory hsame.symm)]
        rfl
      | true =>
        cases hchildren : spot.children fs with
        | error unreadable =>
          rw [descendants_of_not_listed (Spot.children_error hchildren)]
          simp [hreport]
        | ok listing =>
          rcases Spot.children_ok hchildren with ⟨_, hpaths, hfair⟩
          rw [descendants, ← hpaths]
          simp only [if_true, List.flatMap_assoc, List.flatMap_map, List.flatMap_cons,
            filesIn_flatMap, filesIn_append, List.filter_flatMap, List.filter_append]
          refine List.flatMap_congr fun child hchild => ?_
          have hbelow := ih (hfair child hchild)
          rw [filesIn_flatMap, List.filter_flatMap] at hbelow
          rw [hnode child (hfair child hchild), hbelow, descendants_of_directory]
    · have hnone := descendants_of_not_listed (not_listed_of_not_directory hlost.isDirectory)
      rw [hnone]
      rcases descendants_lost hlost (depth + 1) with hspot | ⟨unreadable, hspot⟩
      · rw [hspot]
        rfl
      · rw [hspot]
        simp [hreport]

/-- One step to the names in a directory, if the rest of the walk comes to the same files. -/
theorem filesIn_walk_wild (tokens : List Token) (hslash : ∀ segment ∈ segments, segment.IsSlashless)
    (ih : ∀ path, filesIn fs (walk fs only segments (.lookUp fs path)) =
      (expand fs only segments path).filter fs.isFile) (path : Path) :
    filesIn fs (walk fs only (.wild tokens :: segments) (.lookUp fs path)) =
      (expand fs only (.wild tokens :: segments) path).filter fs.isFile := by
  cases hchildren : (Spot.lookUp fs path).children fs with
  | error unreadable =>
    have hlisted : isListed fs path = false := Spot.children_error hchildren
    simp only [walk, expand, hchildren, hlisted]
    split <;> rfl
  | ok listing =>
    rcases Spot.children_ok hchildren with ⟨hlisted, hpaths, hfair⟩
    have hlisted : isListed fs path = true := hlisted
    have hpaths : listing.map (fun child => (child.1, child.2.path)) = children fs path := hpaths
    have hdir : (Spot.lookUp fs path).isDirectory = true := isDirectory_of_isListed hlisted
    have hpath : (Spot.lookUp fs path).path = path := rfl
    have hbelow : ∀ child ∈ listing,
        filesIn fs (if nameFits (.wild tokens) child.1 then walk fs only segments child.2 else []) =
          (if nameFits (.wild tokens) child.1 then expand fs only segments child.2.path
            else []).filter fs.isFile := by
      intro child hchild
      split
      · exact filesIn_of_fair hslash ih (hfair child hchild)
      · rfl
    simp only [walk, expand, hchildren, hlisted, hdir, if_true, ← hpaths, hpath, filesIn_append,
      filesIn_flatMap, List.filter_append, List.filter_flatMap, List.flatMap_map, ih]
    rw [List.flatMap_congr hbelow]

/-- A walk that ends in `**` comes to directories only, which are no files. -/
theorem filesIn_walk_tree (path : Path) :
    filesIn fs (walk fs only [.tree] (.lookUp fs path)) =
      (expand fs only [.tree] path).filter fs.isFile := by
  have hnone : (expand fs only [.tree] path).filter fs.isFile = [] := by
    refine List.filter_eq_nil_iff.2 fun p hp => ?_
    rw [expand] at hp
    simp [isFile_of_isDirectory (List.mem_filter.1 hp).2]
  have hnode : ∀ node : Name × Spot, node.2.IsFair fs →
      filesIn fs (Option.toList (if node.2.isDirectory then some (.ok node.2.path) else none)) =
        [] := by
    intro node hfair
    split
    · rename_i hdir
      have hfile : fs.isFile node.2.path = false := by
        rcases hfair with hsame | hlost
        · exact isFile_of_isDirectory (hsame ▸ hdir)
        · exact hlost.isFile
      simp [filesIn, Except.toOption, hfile]
    · rfl
  have hno : ∀ items : List (Name × Path), (items.flatMap fun _ => ([] : List Path)) = [] :=
    fun items => List.flatMap_eq_nil_iff.2 fun _ _ => rfl
  rw [hnone, walk, List.filterMap_eq_flatMap_toList]
  refine (filesIn_descendants (g := fun _ => []) (fun _ => rfl) hnode _
    (Spot.isFair_lookUp fs path)).trans ?_
  rw [hno]
  rfl

/-- A walk comes to the same files as if every path on it were looked up by itself. -/
theorem filesIn_walk (only : Bool) : ∀ {segments : List Segment},
    (∀ segment ∈ segments, segment.IsSlashless) → ∀ path,
      filesIn fs (walk fs only segments (.lookUp fs path)) =
        (expand fs only segments path).filter fs.isFile
  | [], _, path => by
    rw [walk, expand]
    show filesIn fs (if (only && !fs.isDirectory path) = true then [] else [.ok path]) = _
    split <;> rfl
  | .literal name :: rest, hslash, path => by
    have hrest := (List.forall_mem_cons.1 hslash).2
    have hpath : (Spot.lookUp fs path).path = path := rfl
    simp only [walk, expand, hpath]
    split
    · exact filesIn_walk only hrest _
    · rfl
  | .wild tokens :: rest, hslash, path => by
    have hrest := (List.forall_mem_cons.1 hslash).2
    exact filesIn_walk_wild tokens hrest (filesIn_walk only hrest) path
  | [.tree], _, path => filesIn_walk_tree path
  | .tree :: segment :: rest, hslash, path => by
    have hrest := (List.forall_mem_cons.1 (List.forall_mem_cons.1 hslash).2).2
    rw [walk, expand]
    -- every descendant whose name fits takes the rest of the walk
    refine filesIn_descendants (fun _ => rfl) (fun node hfair => ?_) _ (Spot.isFair_lookUp fs path)
    show filesIn fs (if nameFits segment node.1 = true then _ else _) = _
    split
    · exact filesIn_of_fair hrest (filesIn_walk only hrest) hfair
    · rfl

/-! ## Components without slashes -/

section

variable {search : Search} {pieces : List (List Char)} {pattern piece : List Char}
  {segment : Segment}

theorem mem_collapse (h : segment ∈ collapse segments) : segment ∈ segments := by
  fun_induction collapse segments with
  | case1 rest ih => exact List.mem_cons_of_mem _ (ih h)
  | case2 first rest _ ih =>
    rcases List.mem_cons.1 h with rfl | hrest
    · exact List.mem_cons_self
    · exact List.mem_cons_of_mem _ (ih hrest)
  | case3 => cases h

theorem isSlashless_compile (hslash : '/' ∉ piece)
    (h : Segment.compile piece = .ok segment) : segment.IsSlashless := by
  rw [Segment.compile] at h
  cases hcompile : compile piece with
  | error fault => simp [hcompile, bind, Except.bind] at h
  | ok tokens =>
    simp only [hcompile, bind, Except.bind, pure, Except.pure] at h
    split at h
    · cases h
      trivial
    · split at h
      · cases h
        trivial
      · cases h
        exact hslash

theorem isSlashless_mapM (hslash : ∀ piece ∈ pieces, '/' ∉ piece)
    (h : pieces.mapM Segment.compile = .ok segments) :
    ∀ segment ∈ segments, segment.IsSlashless := by
  induction pieces generalizing segments with
  | nil =>
    cases h
    exact nofun
  | cons piece rest ih =>
    rcases List.forall_mem_cons.1 hslash with ⟨hpiece, hrest⟩
    rw [List.mapM_cons] at h
    cases hfirst : Segment.compile piece with
    | error fault => simp [hfirst, bind, Except.bind] at h
    | ok first =>
      cases hothers : rest.mapM Segment.compile with
      | error fault => simp [hfirst, hothers, bind, Except.bind] at h
      | ok others =>
        simp only [hfirst, hothers, bind, Except.bind, pure, Except.pure, Except.ok.injEq] at h
        subst h
        exact List.forall_mem_cons.2 ⟨isSlashless_compile hpiece hfirst, ih hrest hothers⟩

/-- No component of a walk spells a name with a slash. -/
theorem isSlashless_search (h : Search.ofPattern pattern = .ok search) :
    ∀ segment ∈ search.segments, segment.IsSlashless := by
  rw [Search.ofPattern] at h
  cases hcompile : compile pattern with
  | error fault => simp [hcompile, bind, Except.bind] at h
  | ok tokens =>
    simp only [hcompile, bind, Except.bind] at h
    split at h
    · cases h
    · rename_i segments hsegments
      cases h
      have hpieces : ∀ body, ∀ piece ∈ componentsOf body, '/' ∉ piece :=
        fun _ _ hpiece hslash => (FileSystem.mem_splitOn (mem_componentsOf hpiece) hslash).1 rfl
      -- the root stands for itself; every other component is a piece of the pattern
      have hcases : ∀ (root : Bool) (segment : Segment),
          segment ∈ (if root then [.literal []] else segments) → segment.IsSlashless := by
        intro root segment hmem
        cases root with
        | true =>
          rw [List.mem_singleton.1 hmem]
          exact List.not_mem_nil
        | false => exact isSlashless_mapM (hpieces _) hsegments segment hmem
      exact fun segment hsegment => hcases _ segment (mem_collapse hsegment)

end

end Glob

/-! ## The selection -/

namespace ArtifactGlob

open Glob (Search Segment expand filesIn walk)

/-- Only the regular files among the paths that a walk finds matter for a selection. -/
theorem choose_files (fs : FileSystem) (found : List (Except Glob.Unreadable Path)) :
    (choose fs found).files = ((filesIn fs found).filter Path.isText).mergeSort Path.le := by
  rw [choose, filesIn, List.filter_filter]

theorem filesAmong_eq (fs : FileSystem) (paths : List Path) :
    filesAmong fs paths = ((paths.filter fs.isFile).filter Path.isText).mergeSort Path.le := by
  rw [filesAmong, List.filter_filter]

/-- A walk selects the files among the paths that its components lead to. -/
theorem choose_files_run (fs : FileSystem) {search : Search}
    (hslash : ∀ segment ∈ search.segments, segment.IsSlashless) :
    (choose fs (search.run fs)).files =
      filesAmong fs (expand fs search.directoriesOnly search.segments search.start) := by
  rw [choose_files, filesAmong_eq, Search.run, Glob.filesIn_walk search.directoriesOnly hslash]

end ArtifactGlob
end BootSigning
