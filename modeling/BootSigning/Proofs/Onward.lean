import BootSigning.Proofs.Listing
import Mathlib.Data.List.Nodup

/-!
# Onward — how a walk goes on, component by component

A walk goes on along each of several paths, and two of them may come to the same file.  As the steps
of a path only grow on the way, that takes two components that can stand for different numbers of
steps: `**`, which takes any number of directories, and what matches the dot as well as other names.

* `onward`, `left`: the paths after the first component of a walk, and the components after it;
* `loose`, `slack`: such a component, and how many there are in a walk;
* `stepsOfFiles`: the steps of the files that a walk comes to.

`nodup_expand` says that with at most one loose component no two paths to files have the same steps.
-/

namespace BootSigning

/-! ## Lists of lists -/

/-- Blocks repeat nothing, if no two of them that share something start with as much. -/
theorem nodup_flatMap_of_prefix {ι α : Type} {items : List ι} {start : ι → List α}
    {block : ι → List (List α)} (hstart : (items.map start).Nodup)
    (hblock : ∀ i ∈ items, (block i).Nodup)
    (hstarts : ∀ i ∈ items, ∀ x ∈ block i, start i <+: x)
    (hlength : ∀ i ∈ items, ∀ j ∈ items, ∀ x, x ∈ block i → x ∈ block j →
      (start i).length = (start j).length) :
    (items.flatMap block).Nodup := by
  have hdistinct : items.Pairwise fun i j => start i ≠ start j := List.pairwise_map.1 hstart
  apply List.nodup_flatMap.2
  refine ⟨hblock, hdistinct.imp_of_mem ?_⟩
  intro i j hi hj hne x hxi hxj
  apply hne
  have hbelow : start i <+: start j :=
    List.prefix_of_prefix_length_le (hstarts i hi x hxi) (hstarts j hj x hxj)
      (Nat.le_of_eq (hlength i hi j hj x hxi hxj))
  exact hbelow.eq_of_length (hlength i hi j hj x hxi hxj)

namespace Glob

variable {fs : FileSystem} {dir : Path} {segments : List Segment}

/-! ## Listings -/

theorem steps_entry {name : Name} (hname : FileSystem.isProperName name = true) :
    Path.steps ⟨name⟩ = [name] := by
  rcases FileSystem.isName_of_isProperName hname with ⟨hslash, hentry⟩
  rw [Path.steps_name hslash, hentry.1]
  rfl

theorem steps_of_mem_children {child : Name × Path} (h : child ∈ children fs dir) :
    child.2.steps = dir.steps ++ [child.1] ∧ FileSystem.isProperName child.1 = true := by
  rcases List.mem_map.1 h with ⟨name, hmem, rfl⟩
  have hlisted : name ∈ fs.namesAt dir := mem_sortNames.1 hmem
  have hproper := FileSystem.isProperName_of_mem_namesAt hlisted
  have hslash : Path.slash ∉ name := (isName_of_mem_namesAt hlisted).1
  refine ⟨?_, hproper⟩
  rw [steps_child dir hslash, steps_entry hproper]

theorem nodup_children (fs : FileSystem) (dir : Path) :
    ((children fs dir).map fun child => child.2.steps).Nodup := by
  have hnames : ((children fs dir).map Prod.fst).Nodup := by
    have hsorted := nodup_sortNames (FileSystem.nodup_namesAt fs dir)
    simpa [children, Function.comp_def] using hsorted
  have hdistinct : (children fs dir).Pairwise fun child other => child.1 ≠ other.1 :=
    List.pairwise_map.1 hnames
  apply List.pairwise_map.2
  apply hdistinct.imp_of_mem
  intro child other hchild hother hne hsteps
  rw [(steps_of_mem_children hchild).1, (steps_of_mem_children hother).1] at hsteps
  apply hne
  simpa using hsteps

/-- What lies below a directory is some steps away. -/
theorem steps_of_mem_descendants {depth : Nat} {node : Name × Path}
    (h : node ∈ descendants fs depth dir) : ∃ way, way ≠ [] ∧ node.2.steps = dir.steps ++ way := by
  induction depth generalizing dir with
  | zero => cases h
  | succ depth ih =>
    rcases List.mem_flatMap.1 h with ⟨child, hchild, hnode⟩
    have hsteps := (steps_of_mem_children hchild).1
    rcases List.mem_cons.1 hnode with rfl | hbelow
    · exact ⟨[node.1], List.cons_ne_nil _ _, hsteps⟩
    · split at hbelow
      · rcases ih hbelow with ⟨way, _, hway⟩
        refine ⟨child.1 :: way, List.cons_ne_nil _ _, ?_⟩
        rw [hway, hsteps, List.append_assoc]
        rfl
      · cases hbelow

theorem nodup_descendants (fs : FileSystem) (depth : Nat) (dir : Path) :
    ((descendants fs depth dir).map fun node => node.2.steps).Nodup := by
  induction depth generalizing dir with
  | zero => exact List.nodup_nil
  | succ depth ih =>
    rw [descendants, List.map_flatMap]
    apply nodup_flatMap_of_prefix (nodup_children fs dir)
    · intro child _
      rw [List.map_cons, List.nodup_cons]
      split
      · refine ⟨?_, ih child.2⟩
        intro hagain
        rcases List.mem_map.1 hagain with ⟨node, hnode, hsame⟩
        rcases steps_of_mem_descendants hnode with ⟨way, hway, hsteps⟩
        rw [hsteps] at hsame
        exact hway (by simpa using hsame)
      · exact ⟨List.not_mem_nil, List.nodup_nil⟩
    · intro child _ steps hsteps
      rcases List.mem_map.1 hsteps with ⟨node, hnode, rfl⟩
      rcases List.mem_cons.1 hnode with rfl | hbelow
      · exact List.prefix_rfl
      · split at hbelow
        · rcases steps_of_mem_descendants hbelow with ⟨way, _, hway⟩
          exact ⟨way, hway.symm⟩
        · cases hbelow
    · intro child hchild other hother _ _ _
      simp [(steps_of_mem_children hchild).1, (steps_of_mem_children hother).1]

/-! ## One component -/

/-- The paths along which a walk goes on after the first of its components. -/
def onward (fs : FileSystem) : List Segment → Path → List Path
  | .literal name :: _, dir =>
    let path := childPath dir (nameOf name)
    if isThere fs (.lookUp fs dir) name path then [path] else []
  | .wild tokens :: _, dir =>
    if isListed fs dir then
      (dotNames (.wild tokens)).map (fun name => dir / (⟨name⟩ : Path)) ++
        ((children fs dir).filter fun child => nameFits (.wild tokens) child.1).map Prod.snd
    else []
  | .tree :: segment :: _, dir =>
    ((descendants fs FileSystem.maxPath dir).filter fun node => nameFits segment node.1).map
      Prod.snd
  | [.tree], _ | [], _ => []

/-- The components after it; `**` goes on to the name that the next component takes. -/
def left : List Segment → List Segment
  | .tree :: _ :: rest => rest
  | _ :: rest => rest
  | [] => []

/-- The first component can stand for different numbers of steps, and others come after it. -/
def loose : List Segment → Bool
  | .tree :: _ :: _ => true
  | .wild tokens :: rest => !rest.isEmpty && (dotNames (.wild tokens)).contains [Path.dot]
  | _ => false

/-- How many components can stand for different numbers of steps. -/
def slack : List Segment → Nat
  | .tree :: _ :: rest => slack rest + 1
  | segment :: rest => slack rest + if loose (segment :: rest) then 1 else 0
  | [] => 0

/-- How many steps the first component stands for, unless it is loose. -/
def width : List Segment → Nat
  | .literal name :: _ => (Path.steps ⟨nameOf name⟩).length
  | _ => 1

/-- A walk with components is one component, then the walk of those that are left. -/
theorem expand_eq (only : Bool) (hsome : segments ≠ []) (htree : segments ≠ [.tree]) (dir : Path) :
    expand fs only segments dir =
      (onward fs segments dir).flatMap (expand fs only (left segments)) := by
  cases segments with
  | nil => exact absurd rfl hsome
  | cons segment rest =>
    cases segment with
    | literal name =>
      rw [expand]
      show (if isThere fs (.lookUp fs dir) name (childPath dir (nameOf name)) then _ else _) = _
      simp only [onward, left]
      split
      · exact (List.flatMap_singleton _ _).symm
      · rfl
    | wild tokens =>
      simp only [expand, onward, left]
      split
      · rw [List.flatMap_append, List.flatMap_map, List.flatMap_map, flatMap_filter_eq]
      · rfl
    | tree =>
      cases rest with
      | nil => exact absurd rfl htree
      | cons next others => simp only [expand, onward, left, List.flatMap_map, flatMap_filter_eq]

theorem slack_eq (hsome : segments ≠ []) :
    slack segments = slack (left segments) + if loose segments then 1 else 0 := by
  cases segments with
  | nil => exact absurd rfl hsome
  | cons segment rest =>
    cases segment with
    | literal name => rfl
    | wild tokens => rfl
    | tree => cases rest <;> rfl

theorem left_suffix (segment : Segment) (rest : List Segment) :
    left (segment :: rest) <:+ rest := by
  cases segment with
  | literal name => exact List.suffix_rfl
  | wild tokens => exact List.suffix_rfl
  | tree =>
    cases rest with
    | nil => exact List.nil_suffix
    | cons next others => exact List.suffix_cons _ _

theorem left_subset (segments : List Segment) : left segments ⊆ segments := by
  cases segments with
  | nil => exact List.Subset.refl _
  | cons segment rest =>
    exact List.Subset.trans (left_suffix segment rest).subset (List.subset_cons_self _ _)

theorem length_left (hsome : segments ≠ []) : (left segments).length < segments.length := by
  cases segments with
  | nil => exact absurd rfl hsome
  | cons segment rest => exact Nat.lt_succ_of_le (left_suffix segment rest).length_le

/-- A walk is no component, the search for directories below, or one component and then a walk. -/
theorem walk_induction {P : List Segment → Prop} (hnone : P []) (htree : P [.tree])
    (hwalk : ∀ segments, segments ≠ [] → segments ≠ [.tree] → P (left segments) → P segments)
    (segments : List Segment) : P segments := by
  by_cases hsome : segments = []
  · exact hsome ▸ hnone
  by_cases hlast : segments = [.tree]
  · exact hlast ▸ htree
  · have hshorter := length_left hsome
    exact hwalk segments hsome hlast (walk_induction hnone htree hwalk (left segments))
termination_by segments.length

/-- The dots that a component takes are one step up, or none. -/
theorem steps_dotName {segment : Segment} {name : Name} (h : name ∈ dotNames segment) :
    Path.steps ⟨name⟩ = if name = [Path.dot] then [] else [[Path.dot, Path.dot]] := by
  have hdots : name = [Path.dot, Path.dot] ∨ name = [Path.dot] := by
    rw [dotNames] at h
    split at h
    · simpa using (List.mem_filter.1 h).1
    · cases h
  rcases hdots with rfl | rfl <;> decide +kernel

theorem dotNames_sublist (segment : Segment) :
    (dotNames segment).Sublist [[Path.dot, Path.dot], [Path.dot]] := by
  rw [dotNames]
  split
  · exact List.filter_sublist
  · exact List.nil_sublist _

theorem nodup_dots (dir : Path) :
    ([[Path.dot, Path.dot], [Path.dot]].map fun name => (dir / (⟨name⟩ : Path)).steps).Nodup := by
  have hup : (dir / (⟨[Path.dot, Path.dot]⟩ : Path)).steps = dir.steps ++ [[Path.dot, Path.dot]] :=
    Path.steps_join dir rfl
  have hhere : (dir / (⟨[Path.dot]⟩ : Path)).steps = dir.steps ++ [] := Path.steps_join dir rfl
  simp [hup, hhere]

/-- No entry of a directory is where its dots lead. -/
theorem steps_dotName_ne {segment : Segment} {name : Name} (hname : name ∈ dotNames segment)
    {child : Name × Path} (hchild : child ∈ children fs dir) :
    (dir / (⟨name⟩ : Path)).steps ≠ child.2.steps := by
  rcases steps_of_mem_children hchild with ⟨hsteps, hproper⟩
  intro hsame
  rw [Path.steps_join dir (Path.isAbsolute_name (mem_dotNames hname).1), hsteps,
    List.append_cancel_left_eq, steps_dotName hname] at hsame
  split at hsame
  · cases hsame
  · have hup : child.1 = [Path.dot, Path.dot] := by simpa using hsame.symm
    rw [hup] at hproper
    exact absurd hproper (by decide +kernel)

theorem bytes_of_isListed (h : isListed fs dir = true) : dir.bytes ≠ [] := by
  rcases isListed_iff.1 h with ⟨loc, hopen⟩
  exact (FileSystem.walk_of_resolve (FileSystem.openDirectory_eq_ok_iff.1 hopen).1).2.1

/--
After one component there are some more steps: as many as it stands for, unless it is loose, or the
last one and its path leads to no file.
-/
theorem steps_onward (hslash : ∀ segment ∈ segments, segment.IsSlashless) {next : Path}
    (h : next ∈ onward fs segments dir) :
    ∃ way, next.steps = dir.steps ++ way ∧
      (loose segments = false → (left segments = [] → fs.isFile next = true) →
        way.length = width segments) := by
  cases segments with
  | nil => cases h
  | cons segment rest =>
    cases segment with
    | literal name =>
      have hname : Path.slash ∉ nameOf name := slash_not_mem_nameOf (hslash _ List.mem_cons_self)
      simp only [onward] at h
      split at h
      · rw [List.mem_singleton.1 h, steps_child dir hname]
        exact ⟨_, rfl, fun _ _ => rfl⟩
      · cases h
    | wild tokens =>
      simp only [onward] at h
      split at h
      · rename_i hlist
        rcases List.mem_append.1 h with hdots | hlisted
        · rcases List.mem_map.1 hdots with ⟨name, hname, rfl⟩
          rw [Path.steps_join dir (Path.isAbsolute_name (mem_dotNames hname).1)]
          refine ⟨_, rfl, ?_⟩
          intro hloose hfile
          have hup : name ≠ [Path.dot] := by
            rintro rfl
            -- the dot is no file, and if it is not the last component, it makes it loose
            by_cases hlast : rest = []
            · have hnone : fs.isFile (dir / (⟨[Path.dot]⟩ : Path)) = false :=
                isFile_dotNames (bytes_of_isListed hlist) hname
              rw [hfile hlast] at hnone
              cases hnone
            · simp [loose, hlast, hname] at hloose
          rw [steps_dotName hname, if_neg hup]
          rfl
        · rcases List.mem_map.1 hlisted with ⟨child, hchild, rfl⟩
          rw [(steps_of_mem_children (List.mem_filter.1 hchild).1).1]
          exact ⟨_, rfl, fun _ _ => rfl⟩
      · cases h
    | tree =>
      cases rest with
      | nil => cases h
      | cons next others =>
        rcases List.mem_map.1 h with ⟨node, hnode, rfl⟩
        rcases steps_of_mem_descendants (List.mem_filter.1 hnode).1 with ⟨way, _, hway⟩
        exact ⟨way, hway, nofun⟩

/-- No two paths after one component have the same steps. -/
theorem nodup_onward (fs : FileSystem) (segments : List Segment) (dir : Path) :
    ((onward fs segments dir).map Path.steps).Nodup := by
  cases segments with
  | nil => exact List.nodup_nil
  | cons segment rest =>
    cases segment with
    | literal name =>
      simp only [onward]
      split
      · exact List.nodup_singleton _
      · exact List.nodup_nil
    | wild tokens =>
      simp only [onward]
      split
      · rw [List.map_append, List.map_map, List.map_map]
        apply List.nodup_append.2
        refine ⟨?_, (nodup_children fs dir).sublist (List.filter_sublist.map _), ?_⟩
        · exact (nodup_dots dir).sublist ((dotNames_sublist _).map _)
        · intro steps hdots steps' hlisted hsame
          rcases List.mem_map.1 hdots with ⟨name, hname, rfl⟩
          rcases List.mem_map.1 hlisted with ⟨child, hchild, rfl⟩
          exact steps_dotName_ne hname (List.mem_filter.1 hchild).1 hsame
      · exact List.nodup_nil
    | tree =>
      cases rest with
      | nil => exact List.nodup_nil
      | cons next others =>
        simp only [onward]
        rw [List.map_map]
        exact (nodup_descendants fs _ dir).sublist (List.filter_sublist.map _)

/-! ## Whole walks -/

variable {only : Bool} {p : Path}

theorem isSlashless_left (hslash : ∀ segment ∈ segments, segment.IsSlashless) :
    ∀ segment ∈ left segments, segment.IsSlashless :=
  fun segment hsegment => hslash segment (left_subset segments hsegment)

theorem mem_expand_nil (h : p ∈ expand fs only [] dir) : p = dir := by
  rw [expand] at h
  split at h
  · cases h
  · exact List.mem_singleton.1 h

/-- A search for directories comes to no file. -/
theorem isFile_expand_tree (h : p ∈ expand fs only [.tree] dir) : fs.isFile p = false := by
  rw [expand] at h
  exact isFile_of_isDirectory (List.mem_filter.1 h).2

/-- If only directories count, no walk comes to a file. -/
theorem isFile_expand_only (h : p ∈ expand fs true segments dir) : fs.isFile p = false := by
  induction segments using walk_induction generalizing dir with
  | hnone =>
    rw [expand] at h
    split at h
    · cases h
    · rename_i hdir
      rw [List.mem_singleton.1 h]
      apply isFile_of_isDirectory
      simpa using hdir
  | htree => exact isFile_expand_tree h
  | hwalk segments hsome htree ih =>
    rw [expand_eq true hsome htree] at h
    rcases List.mem_flatMap.1 h with ⟨next, _, hp⟩
    exact ih hp

/-- A walk only adds steps. -/
theorem prefix_expand (hslash : ∀ segment ∈ segments, segment.IsSlashless)
    (h : p ∈ expand fs only segments dir) : dir.steps <+: p.steps := by
  induction segments using walk_induction generalizing dir with
  | hnone =>
    have hp : p = dir := mem_expand_nil h
    subst hp
    exact List.prefix_rfl
  | htree =>
    rw [expand] at h
    rcases List.mem_map.1 (List.mem_filter.1 h).1 with ⟨node, hnode, rfl⟩
    rcases steps_of_mem_descendants hnode with ⟨way, _, hway⟩
    exact ⟨way, hway.symm⟩
  | hwalk segments hsome htree ih =>
    rw [expand_eq only hsome htree] at h
    rcases List.mem_flatMap.1 h with ⟨next, hnext, hp⟩
    rcases steps_onward hslash hnext with ⟨way, hway, _⟩
    have hfirst : dir.steps <+: next.steps := ⟨way, hway.symm⟩
    exact hfirst.trans (ih (isSlashless_left hslash) hp)

/-- What a walk comes to a file through is a file, if no component is left. -/
theorem isFile_of_last {next : Path} (h : p ∈ expand fs only (left segments) next)
    (hfile : fs.isFile p = true) : left segments = [] → fs.isFile next = true := by
  intro hnone
  rw [hnone] at h
  rwa [← mem_expand_nil h]

/-- Past a component that is not loose, the walks to files have the same number of steps. -/
theorem length_onward (hslash : ∀ segment ∈ segments, segment.IsSlashless)
    (hloose : loose segments = false) {next : Path} (h : next ∈ onward fs segments dir)
    (hp : p ∈ expand fs only (left segments) next) (hfile : fs.isFile p = true) :
    next.steps.length = dir.steps.length + width segments := by
  rcases steps_onward hslash h with ⟨way, hway, hwidth⟩
  rw [hway, List.length_append, hwidth hloose (isFile_of_last hp hfile)]

variable (fs only) in
/-- Without loose components, all files are equally many steps away. -/
theorem length_expand (hslash : ∀ segment ∈ segments, segment.IsSlashless)
    (hslack : slack segments = 0) :
    ∃ count, ∀ dir, ∀ p ∈ expand fs only segments dir, fs.isFile p = true →
      p.steps.length = dir.steps.length + count := by
  induction segments using walk_induction with
  | hnone =>
    refine ⟨0, ?_⟩
    intro dir p h _
    rw [mem_expand_nil h, Nat.add_zero]
  | htree =>
    refine ⟨0, ?_⟩
    intro dir p h hfile
    rw [isFile_expand_tree h] at hfile
    cases hfile
  | hwalk segments hsome htree ih =>
    rw [slack_eq hsome] at hslack
    have hloose : loose segments = false := by
      cases hloose : loose segments with
      | false => rfl
      | true => simp [hloose] at hslack
    rcases ih (isSlashless_left hslash) (by omega) with ⟨more, hmore⟩
    refine ⟨width segments + more, ?_⟩
    intro dir p h hfile
    rw [expand_eq only hsome htree] at h
    rcases List.mem_flatMap.1 h with ⟨next, hnext, hp⟩
    rw [hmore next p hp hfile, length_onward hslash hloose hnext hp hfile, Nat.add_assoc]

/-- The steps of the files that a walk comes to, in its order. -/
def stepsOfFiles (fs : FileSystem) (found : List Path) : List (List Name) :=
  (found.filter fs.isFile).map Path.steps

theorem stepsOfFiles_eq_nil {found : List Path} (h : ∀ p ∈ found, fs.isFile p = false) :
    stepsOfFiles fs found = [] := by
  have hnone : found.filter fs.isFile = [] := List.filter_eq_nil_iff.2 fun p hp => by simp [h p hp]
  rw [stepsOfFiles, hnone]
  rfl

theorem mem_stepsOfFiles {found : List Path} {steps : List Name} :
    steps ∈ stepsOfFiles fs found ↔ ∃ p ∈ found, fs.isFile p = true ∧ p.steps = steps := by
  simp [stepsOfFiles, and_assoc]

/-- With at most one loose component, no two paths to files have the same steps. -/
theorem nodup_expand (hslash : ∀ segment ∈ segments, segment.IsSlashless)
    (hslack : slack segments ≤ 1) (dir : Path) :
    (stepsOfFiles fs (expand fs only segments dir)).Nodup := by
  induction segments using walk_induction generalizing dir with
  | hnone =>
    have hone : (stepsOfFiles fs (expand fs only [] dir)).Sublist [dir.steps] := by
      have hfound : (expand fs only [] dir).Sublist [dir] := by
        rw [expand]
        split
        · exact List.nil_sublist _
        · exact List.Sublist.refl _
      exact (List.filter_sublist.trans hfound).map Path.steps
    exact (List.nodup_singleton _).sublist hone
  | htree =>
    rw [stepsOfFiles_eq_nil fun p => isFile_expand_tree]
    exact List.nodup_nil
  | hwalk segments hsome htree ih =>
    have hsplit : stepsOfFiles fs (expand fs only segments dir) =
        (onward fs segments dir).flatMap fun next =>
          stepsOfFiles fs (expand fs only (left segments) next) := by
      rw [expand_eq only hsome htree, stepsOfFiles, List.filter_flatMap, List.map_flatMap]
      rfl
    rw [slack_eq hsome] at hslack
    have hrest := isSlashless_left hslash
    rw [hsplit]
    apply nodup_flatMap_of_prefix (nodup_onward fs segments dir)
    · intro next _
      exact ih hrest (by omega) next
    · intro next _ steps hsteps
      rcases mem_stepsOfFiles.1 hsteps with ⟨p, hp, _, rfl⟩
      exact prefix_expand hrest hp
    · intro next hnext other hother steps hsteps hsteps'
      rcases mem_stepsOfFiles.1 hsteps with ⟨p, hp, hfile, rfl⟩
      rcases mem_stepsOfFiles.1 hsteps' with ⟨q, hq, hfile', hsame⟩
      cases hloose : loose segments with
      | true =>
        -- what comes after a loose component takes the same number of steps from everywhere
        have htight : slack (left segments) = 0 := by
          simp [hloose] at hslack
          omega
        rcases length_expand fs only hrest htight with ⟨count, hcount⟩
        have hlength := hcount next p hp hfile
        have hlength' := hcount other q hq hfile'
        rw [hsame] at hlength'
        omega
      | false =>
        rw [length_onward hslash hloose hnext hp hfile,
          length_onward hslash hloose hother hq hfile']

end Glob
end BootSigning
