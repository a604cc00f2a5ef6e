import BootSigning.Proofs.Ways
import Mathlib.Data.List.TakeWhile

/-!
# Removal — a directory that is taken away with all below it

A directory is removed from below: first what it holds, then itself.  The system may refuse any step
on the way, and what was removed before stays removed.

* `FileSystem.SameOutside`: changes within a directory only;
* `RemovalStep.site`: where a step of a removal takes place, always within the directory;
* `FileSystem.Removable`: nothing within the directory is kept from being listed or taken away.

`removeTree_complete_iff` says that a removal comes to its end exactly if the directory is
removable; nothing is left of it then, and outside of it nothing changes in either case.
-/

namespace BootSigning
namespace FileSystem

variable {fs fs' : FileSystem} {loc place top : Location}

/-! ## What lies within a directory -/

theorem isWithin_self (top : Location) : isWithin top top = true :=
  List.isSuffixOf_iff_suffix.2 (List.suffix_refl top)

theorem isWithin_child (name : Name) (top : Location) : isWithin top (name :: top) = true :=
  List.isSuffixOf_iff_suffix.2 (List.suffix_cons name top)

theorem isWithin_trans (h : isWithin top loc = true) (h' : isWithin loc place = true) :
    isWithin top place = true :=
  List.isSuffixOf_iff_suffix.2
    ((List.isSuffixOf_iff_suffix.1 h).trans (List.isSuffixOf_iff_suffix.1 h'))

theorem length_le_of_isWithin (h : isWithin top place = true) : top.length ≤ place.length :=
  (List.isSuffixOf_iff_suffix.1 h).length_le

/-- What lies within a place is the place itself or lies within an entry of it. -/
theorem isWithin_cases (h : isWithin top place = true) :
    place = top ∨ ∃ name, isWithin (name :: top) place = true := by
  rcases List.isSuffixOf_iff_suffix.1 h with ⟨names, rfl⟩
  rcases List.eq_nil_or_concat names with rfl | ⟨before, name, rfl⟩
  · exact .inl rfl
  · refine .inr ⟨name, List.isSuffixOf_iff_suffix.2 ⟨before, ?_⟩⟩
    rw [List.concat_eq_append, List.append_assoc, List.singleton_append]

/-- Where nothing is, nothing is below. -/
theorem node?_below (htop : fs.node? top = none) (hwithin : isWithin top place) :
    fs.node? place = none := by
  rcases List.isSuffixOf_iff_suffix.1 hwithin with ⟨names, rfl⟩
  induction names with
  | nil => exact htop
  | cons name rest ih =>
    cases hnode : fs.node? (name :: rest ++ top) with
    | none => rfl
    | some node =>
      have hparent : fs.node? (rest ++ top) = some .directory := (parent_of_node? hnode).2
      rw [ih (List.isSuffixOf_iff_suffix.2 (List.suffix_append rest top))] at hparent
      cases hparent

/-- The files are the same but for a place and what lies below it. -/
def SameOutside (top : Location) (fs fs' : FileSystem) : Prop :=
  ∀ place, isWithin top place = false → fs'.node? place = fs.node? place

theorem SameOutside.of_differ (hdiffer : DifferAt fs fs' place)
    (hwithin : isWithin top place = true) : SameOutside top fs fs' := by
  intro other hother
  refine hdiffer.elsewhere other ?_
  rintro rfl
  rw [hwithin] at hother
  cases hother

theorem ne_root_of_isWithin (htop : top ≠ []) (h : isWithin top place = true) : place ≠ [] := by
  rintro rfl
  exact htop (List.suffix_nil.1 (List.isSuffixOf_iff_suffix.1 h))

/-- After a removal nothing is left of a place, and all else is as it was. -/
theorem node?_eraseWithin (htop : top ≠ []) (place : Location) :
    (fs.eraseWithin top).node? place = if isWithin top place then none else fs.node? place := by
  by_cases hroot : place = []
  · subst hroot
    have hout : isWithin top [] = false := by
      rw [Bool.eq_false_iff]
      exact fun h => ne_root_of_isWithin htop h rfl
    simp [hout]
  · rw [Option.ext_iff]
    intro node
    rw [← mem_nodes_iff hroot, eraseWithin, List.mem_filter, mem_nodes_iff hroot]
    cases isWithin top place <;> simp

/-- What is removed with a directory need not be removed before. -/
theorem eraseWithin_eraseWithin (h : isWithin top place = true) :
    (fs.eraseWithin place).eraseWithin top = fs.eraseWithin top := by
  have hinside : ∀ loc, isWithin top loc = false → isWithin place loc = false := by
    intro loc hout
    rw [Bool.eq_false_iff] at hout ⊢
    exact fun hin => hout (isWithin_trans h hin)
  ext1
  · refine (List.filter_filter ..).trans (List.filter_congr fun entry _ => ?_)
    cases hout : isWithin top entry.1 with
    | true => rfl
    | false => simp [hinside _ hout]
  · rfl
  · funext loc access
    by_cases hin : loc ≠ [] ∧ isWithin top loc = true
    · simp only [eraseWithin, if_pos hin]
    · have hin' : ¬(loc ≠ [] ∧ isWithin place loc = true) :=
        fun hboth => hin ⟨hboth.1, isWithin_trans h hboth.2⟩
      simp only [eraseWithin, if_neg hin, if_neg hin']

/-! ## Steps of a removal -/

/-- Where a step takes place. -/
def RemovalStep.site : RemovalStep → Location
  | .list dir => dir
  | .unlink loc => loc

/-- Every step is within the place that is removed. -/
theorem isWithin_of_mem_removalSteps {depth : Nat} {step : RemovalStep}
    (h : step ∈ fs.removalSteps depth top) : isWithin top step.site = true := by
  induction depth generalizing top with
  | zero =>
    rw [removalSteps, List.mem_singleton] at h
    rw [h]
    exact isWithin_self top
  | succ depth ih =>
    rw [removalSteps] at h
    split at h
    · rcases List.mem_append.1 h with h | h
      · rcases List.mem_cons.1 h with rfl | h
        · exact isWithin_self top
        · rcases List.mem_flatMap.1 h with ⟨name, _, h⟩
          exact isWithin_trans (isWithin_child name top) (ih h)
      · rw [List.mem_singleton.1 h]
        exact isWithin_self top
    · rw [List.mem_singleton.1 h]
      exact isWithin_self top

/-- The place itself comes last. -/
theorem removalSteps_last (fs : FileSystem) (depth : Nat) (top : Location) :
    ∃ before, fs.removalSteps depth top = before ++ [.unlink top] := by
  cases depth with
  | zero => exact ⟨[], rfl⟩
  | succ depth =>
    rw [removalSteps]
    split
    · exact ⟨_, rfl⟩
    · exact ⟨[], rfl⟩

/-- Something stands where a step takes place, and where names are read it is a directory. -/
theorem node?_of_mem_removalSteps {depth : Nat} {step : RemovalStep} {node : Node}
    (htop : fs.node? top = some node) (h : step ∈ fs.removalSteps depth top) :
    (∃ found, fs.node? step.site = some found) ∧
      ∀ dir, step = .list dir → fs.node? dir = some .directory := by
  have hlast : ∀ {top node}, fs.node? top = some node → ∀ {step : RemovalStep},
      step = .unlink top → (∃ found, fs.node? step.site = some found) ∧
        ∀ dir, step = .list dir → fs.node? dir = some .directory := by
    rintro top node htop step rfl
    exact ⟨⟨node, htop⟩, nofun⟩
  induction depth generalizing top node with
  | zero => exact hlast htop (List.mem_singleton.1 h)
  | succ depth ih =>
    rw [removalSteps] at h
    split at h
    · rename_i hdir
      rcases List.mem_append.1 h with h | h
      · rcases List.mem_cons.1 h with rfl | h
        · exact ⟨⟨.directory, hdir⟩, fun dir heq => RemovalStep.list.inj heq ▸ hdir⟩
        · rcases List.mem_flatMap.1 h with ⟨name, hname, h⟩
          rcases mem_names_iff.1 hname with ⟨child, hchild⟩
          exact ih hchild h
      · exact hlast htop (List.mem_singleton.1 h)
    · exact hlast htop (List.mem_singleton.1 h)

/-- Deep enough, a removal comes to everything that lies within the place. -/
theorem mem_removalSteps {depth : Nat} {node : Node} (hwithin : isWithin top place = true)
    (hplace : fs.node? place = some node) (hdepth : place.length < top.length + depth) :
    RemovalStep.unlink place ∈ fs.removalSteps depth top ∧
      (node = .directory → RemovalStep.list place ∈ fs.removalSteps depth top) := by
  induction depth generalizing top with
  | zero => exact absurd (length_le_of_isWithin hwithin) (Nat.not_le.2 hdepth)
  | succ depth ih =>
    rcases isWithin_cases hwithin with rfl | ⟨name, hname⟩
    · constructor
      · rcases removalSteps_last fs (depth + 1) place with ⟨before, hsteps⟩
        simp [hsteps]
      · rintro rfl
        simp [removalSteps, hplace]
    · -- the place lies within an entry of the directory, which is one of its names
      have hentry : ∃ child, fs.node? (name :: top) = some child := by
        cases hchild : fs.node? (name :: top) with
        | some child => exact ⟨child, rfl⟩
        | none =>
          rw [node?_below hchild hname] at hplace
          cases hplace
      have hdir : fs.node? top = some .directory :=
        hentry.elim fun child hchild => (parent_of_node? hchild).2
      have hbelow := ih hname (by rw [List.length_cons]; omega)
      have hsteps : ∀ step ∈ fs.removalSteps depth (name :: top),
          step ∈ fs.removalSteps (depth + 1) top := by
        intro step hstep
        have hmem : step ∈ (fs.names top).flatMap fun name => fs.removalSteps depth (name :: top) :=
          List.mem_flatMap.2 ⟨name, mem_names_iff.2 hentry, hstep⟩
        rw [removalSteps, if_pos hdir]
        exact List.mem_append_left _ (List.mem_cons_of_mem _ hmem)
      exact ⟨hsteps _ hbelow.1, fun hnode => hsteps _ (hbelow.2 hnode)⟩

theorem length_le_depth {node : Node} (h : fs.node? place = some node) :
    place.length ≤ fs.depth := by
  by_cases hroot : place = []
  · simp [hroot]
  · have hmem := (mem_nodes_iff hroot).2 h
    rw [depth]
    generalize fs.nodes = nodes at hmem
    induction nodes with
    | nil => cases hmem
    | cons entry rest ih =>
      rw [List.map_cons, List.foldr_cons]
      rcases List.mem_cons.1 hmem with rfl | hmem
      · exact Nat.le_max_left _ _
      · exact Nat.le_trans (ih hmem) (Nat.le_max_right _ _)

/-! ## Removals that come to their end -/

/-- Nothing at a place or below it is kept from being taken away, and no directory from being
listed. -/
def Removable (fs : FileSystem) (top : Location) : Prop :=
  ∀ entry ∈ fs.nodes, isWithin top entry.1 = true →
    fs.refusal entry.1.tail .execute = none ∧ fs.refusal entry.1.tail .write = none ∧
      fs.refusal entry.1 .remove = none ∧
      (entry.2 = .directory → fs.refusal entry.1 .read = none)

instance (fs : FileSystem) (top : Location) : Decidable (fs.Removable top) :=
  inferInstanceAs (Decidable (∀ entry ∈ fs.nodes, isWithin top entry.1 = true →
    fs.refusal entry.1.tail .execute = none ∧ fs.refusal entry.1.tail .write = none ∧
      fs.refusal entry.1 .remove = none ∧
      (entry.2 = .directory → fs.refusal entry.1 .read = none)))

theorem RemovalStep.obstacle?_unlink (hloc : loc ≠ []) :
    RemovalStep.obstacle? fs (.unlink loc) = none ↔ fs.refusal loc.tail .execute = none ∧
      fs.refusal loc.tail .write = none ∧ fs.refusal loc .remove = none := by
  simp [obstacle?, needs, hloc]

theorem RemovalStep.obstacle?_list (dir : Location) :
    RemovalStep.obstacle? fs (.list dir) = none ↔
      fs.refusal dir.tail .execute = none ∧ fs.refusal dir .read = none := by
  simp [obstacle?, needs]

/-- No step meets an obstacle exactly if the place is removable. -/
theorem obstacles_iff {node : Node} (htop : top ≠ []) (hnode : fs.node? top = some node) :
    (∀ step ∈ fs.removalSteps (fs.depth + 1) top, step.obstacle? fs = none) ↔
      fs.Removable top := by
  constructor
  · intro h entry hentry hwithin
    have hplace := ne_root_of_isWithin htop hwithin
    have hthere : fs.node? entry.1 = some entry.2 := (mem_nodes_iff hplace).1 hentry
    have hdepth : entry.1.length < top.length + (fs.depth + 1) := by
      have hlength := length_le_depth hthere
      omega
    rcases mem_removalSteps hwithin hthere hdepth with ⟨hunlink, hlist⟩
    rcases (RemovalStep.obstacle?_unlink hplace).1 (h _ hunlink) with ⟨hexecute, hwrite, hremove⟩
    exact ⟨hexecute, hwrite, hremove,
      fun hdir => ((RemovalStep.obstacle?_list entry.1).1 (h _ (hlist hdir))).2⟩
  · intro h step hstep
    rcases node?_of_mem_removalSteps hnode hstep with ⟨⟨found, hfound⟩, hdirectory⟩
    have hwithin := isWithin_of_mem_removalSteps hstep
    have hplace := ne_root_of_isWithin htop hwithin
    rcases h _ ((mem_nodes_iff hplace).2 hfound) hwithin with ⟨hexecute, hwrite, hremove, hread⟩
    cases step with
    | unlink loc => exact (RemovalStep.obstacle?_unlink hplace).2 ⟨hexecute, hwrite, hremove⟩
    | list dir =>
      have hdir := hdirectory dir rfl
      have hfound : fs.node? dir = some found := hfound
      rw [hdir, Option.some_inj] at hfound
      exact (RemovalStep.obstacle?_list dir).2 ⟨hexecute, hread hfound.symm⟩

/-- Steps within a place leave no more of it than its own removal. -/
theorem eraseWithin_of_steps {steps : List RemovalStep}
    (h : ∀ step ∈ steps, isWithin top step.site = true) :
    (steps.foldl RemovalStep.carryOut fs).eraseWithin top = fs.eraseWithin top := by
  induction steps generalizing fs with
  | nil => rfl
  | cons step rest ih =>
    rcases List.forall_mem_cons.1 h with ⟨hstep, hrest⟩
    rw [List.foldl_cons, ih hrest]
    cases step with
    | list => rfl
    | unlink loc => exact eraseWithin_eraseWithin hstep

/-- Steps within a place change nothing outside of it. -/
theorem sameOutside_of_steps {steps : List RemovalStep} (htop : top ≠ [])
    (h : ∀ step ∈ steps, isWithin top step.site = true) :
    SameOutside top fs (steps.foldl RemovalStep.carryOut fs) := by
  induction steps generalizing fs with
  | nil => exact fun _ _ => rfl
  | cons step rest ih =>
    rcases List.forall_mem_cons.1 h with ⟨hstep, hrest⟩
    intro place hout
    rw [List.foldl_cons, ih hrest place hout]
    cases step with
    | list => rfl
    | unlink loc =>
      have hloc : loc ≠ [] := ne_root_of_isWithin htop hstep
      have hother : isWithin loc place = false := by
        rw [Bool.eq_false_iff] at hout ⊢
        exact fun hin => hout (isWithin_trans hstep hin)
      show (fs.eraseWithin loc).node? place = _
      rw [node?_eraseWithin hloc, hother]
      rfl

/-- A removal comes to its end exactly if the place is removable. -/
theorem removeTree_complete_iff {node : Node} (htop : top ≠ []) (hnode : fs.node? top = some node) :
    (fs.removeTree top).fault = none ↔ fs.Removable top := by
  rw [← obstacles_iff htop hnode, removeTree, Option.map_eq_none_iff, List.findSome?_eq_none_iff]

/-- Nothing but the place and what lies below it is gone after a complete removal. -/
theorem removeTree_of_removable {node : Node} (htop : top ≠ []) (hnode : fs.node? top = some node)
    (h : fs.Removable top) : fs.removeTree top = ⟨fs.eraseWithin top, none⟩ := by
  have hall := (obstacles_iff htop hnode).2 h
  have hfault := (removeTree_complete_iff htop hnode).2 h
  have hfiles : (fs.removeTree top).files = fs.eraseWithin top := by
    have htaken : (fs.removalSteps (fs.depth + 1) top).takeWhile
        (fun step => (step.obstacle? fs).isNone) = fs.removalSteps (fs.depth + 1) top :=
      List.takeWhile_eq_self_iff.2 fun step hstep => by simp [hall step hstep]
    rcases removalSteps_last fs (fs.depth + 1) top with ⟨before, hsteps⟩
    have hbefore : ∀ step ∈ before, isWithin top step.site = true := by
      intro step hstep
      have hmem : step ∈ fs.removalSteps (fs.depth + 1) top := by
        rw [hsteps]
        exact List.mem_append_left _ hstep
      exact isWithin_of_mem_removalSteps hmem
    simp only [removeTree, htaken]
    rw [hsteps, List.foldl_append]
    exact eraseWithin_of_steps hbefore
  cases hchange : fs.removeTree top with
  | mk files fault =>
    rw [hchange] at hfiles hfault
    rw [← hfiles, ← hfault]

/-- Whether a removal comes to its end or not, nothing changes outside. -/
theorem removeTree_sameOutside (htop : top ≠ []) :
    SameOutside top fs (fs.removeTree top).files := by
  refine sameOutside_of_steps htop fun step hstep => ?_
  have hmem : step ∈ fs.removalSteps (fs.depth + 1) top := (List.takeWhile_prefix _).subset hstep
  exact isWithin_of_mem_removalSteps hmem

end FileSystem
end BootSigning
