import BootSigning.Proofs.Removal
import BootSigning.Workspace

/-!
# Edits — a directory that is made, used and removed

What a change of the files at one place means for the path of a directory, and for the files in it.

* `Path.slash_notMem_fileName`: a file name is a single name;
* `FileSystem.LeadsTo`: a path that leads to a directory;
* `FileSystem.IsMade`: a directory that was made, and where nothing was before;
* `FileSystem.resolve_child`: a name below the path is that name in the directory, unless a link
  stands there;
* `IsMade.removeTree_eq`: such a directory can be taken away again, and then nothing was done.

`Workspace.isMade_of_makeFresh` says that a fresh workspace is such a directory, and
`Workspace.given_up_of_makeFresh` that its removal brings the files back as they were.
-/

namespace BootSigning

/-! ## File names -/

/-- The file name of a path is one of the names between its slashes. -/
theorem Path.mem_pieces_of_fileName? {p : Path} {name : Name} (h : p.fileName? = some name) :
    name ∈ p.pieces := by
  have hlast : p.components.getLast? = some (.named name) := by
    rw [fileName?] at h
    split at h
    · rename_i found hfound
      cases h
      exact hfound
    · cases h
  -- neither a root nor a dot in front is a name
  have hstep : .named name ∈ p.pieces.filterMap component? := by
    have hmem := List.mem_of_getLast? hlast
    simp only [components] at hmem
    split at hmem
    · simpa using hmem
    · split at hmem
      · simpa using hmem
      · exact hmem
  rcases List.mem_filterMap.1 hstep with ⟨piece, hpiece, hcomponent⟩
  have hname : piece = name := by
    rw [component?] at hcomponent
    split at hcomponent
    · cases hcomponent
    · split at hcomponent
      · cases hcomponent
      · cases hcomponent
        rfl
  exact hname ▸ hpiece

theorem Path.slash_notMem_fileName {p : Path} {name : Name} (h : p.fileName? = some name) :
    slash ∉ name :=
  fun hslash => (FileSystem.mem_splitOn (mem_pieces_of_fileName? h) hslash).1 rfl

namespace FileSystem

variable {fs fs' : FileSystem} {p : Path} {loc place : Location}

/-! ## Paths of directories -/

/-- The path leads to the directory at a place, and its last name to no link. -/
structure LeadsTo (fs : FileSystem) (p : Path) (loc : Location) : Prop where
  resolves : fs.resolve .itself p = .ok loc
  directory : fs.node? loc = some .directory

namespace LeadsTo

/-- A file that is written and a directory that is made take away no directory. -/
theorem of_differ (h : LeadsTo fs p loc) (hdiffer : DifferAt fs fs' place) :
    LeadsTo fs' p loc where
  resolves := resolve_of_differ hdiffer (fun hcreate => by cases hcreate) h.resolves
  directory := hdiffer.directory h.directory

theorem follows (h : LeadsTo fs p loc) : Follows fs maxLinks (origin fs.cwd p) p.pieces loc := by
  refine follows_of_walk rfl (fun _ target => ?_) _ _ _ (walk_of_resolve h.resolves).2.2.2
  simp [h.directory]

end LeadsTo

/-- What a name without a slash leads to below a directory, unless a link stands there. -/
theorem resolve_child {last : LastName} {name : Name} (hempty : p.bytes ≠ [])
    (h : Follows fs maxLinks (origin fs.cwd p) p.pieces loc) (hslash : Path.slash ∉ name)
    (hname : IsEntry name) (hplain : ∀ target, fs.node? (name :: loc) ≠ some (.symlink target))
    (hresolve : fs.resolve last (p / (⟨name⟩ : Path)) = .ok place) : place = name :: loc := by
  rcases Path.pieces_join hempty hslash with ⟨before, hpieces, _, _, hown⟩
  -- the walk goes to the directory first, with or without the slash at its end
  have hbefore : Follows fs maxLinks (origin fs.cwd p) before loc := by
    rcases hown with hown | hown
    · rwa [hown] at h
    · rw [hown] at h
      exact h.thin (.slash_at_end before)
  have hwalk := (walk_of_resolve hresolve).2.2.2
  rw [origin_of_sameWay (Path.isAbsolute_join p (Path.isAbsolute_name hslash)), hpieces] at hwalk
  exact hbefore.entry_of_walk hname hplain hwalk

/-! ## Making a directory -/

/-- A directory was made at a place, and nothing else was changed. -/
structure IsMade (fs fs' : FileSystem) (loc : Location) : Prop where
  inserted : fs' = fs.insert loc .directory
  canPut : fs.canPut .directory loc = true
  before : fs.node? loc = none
  /-- What is above lets entries be made, and so taken away. -/
  parent : fs.refusal loc.tail .execute = none ∧ fs.refusal loc.tail .write = none

namespace IsMade

theorem cwd (h : IsMade fs fs' loc) : fs'.cwd = fs.cwd := by rw [h.inserted, cwd_insert]

theorem refusal (h : IsMade fs fs' loc) : fs'.refusal = fs.refusal := by
  rw [h.inserted, refusal_insert]

theorem elsewhere (h : IsMade fs fs' loc) (other : Location) (hother : other ≠ loc) :
    fs'.node? other = fs.node? other := by
  rw [h.inserted, node?_insert h.canPut, if_neg hother]

theorem after (h : IsMade fs fs' loc) : fs'.node? loc = some .directory := by
  rw [h.inserted, node?_insert h.canPut, if_pos rfl]

theorem differ (h : IsMade fs fs' loc) : DifferAt fs fs' loc where
  cwd := h.cwd
  refusal := h.refusal
  elsewhere := h.elsewhere
  before := by simp [h.before]
  after := ⟨.directory, h.after, nofun⟩

end IsMade

/-- A directory that was just made is empty. -/
theorem IsMade.empty (h : IsMade fs fs' loc) (name : Name) : fs'.node? (name :: loc) = none := by
  have hother : name :: loc ≠ loc := fun heq => by simpa using congrArg List.length heq
  rw [h.elsewhere _ hother]
  exact node?_below h.before (isWithin_child name loc)

theorem isMade_of_place (h : fs.place p .directory = .ok fs') :
    ∃ loc, IsMade fs fs' loc ∧ LeadsTo fs' p loc := by
  cases hresolve : fs.resolve ⟨false, true⟩ p with
  | error fault => simp [place, hresolve, bind, Except.bind] at h
  | ok loc =>
    simp only [place, hresolve, bind, Except.bind] at h
    cases hfree : fs.node? loc with
    | some node => simp [hfree] at h
    | none =>
      rcases permit_of_bind (hfree ▸ h) with ⟨hwrite, h⟩
      cases h
      rcases (walks_of_resolve hresolve).free (isPiece_of_mem_pieces (walk_of_resolve hresolve).1)
        (fun hnil => absurd hnil (pieces_ne_nil p)) hfree with ⟨name, parent, rfl, hname, hopen⟩
      have hput : fs.canPut .directory (name :: parent) = true := by
        simp [canPut, Node.isProper, hname, hopen.directory]
      have hmade : IsMade fs (fs.insert (name :: parent) .directory) (name :: parent) :=
        ⟨rfl, hput, hfree, hopen.allowed, hwrite⟩
      exact ⟨_, hmade, resolve_of_differ hmade.differ (fun _ => rfl) hresolve, hmade.after⟩

/-! ## Removing a directory -/

theorem LeadsTo.removeDirectory (h : LeadsTo fs p loc) :
    fs.removeDirectory p = fs.removeTree loc := by
  simp only [FileSystem.removeDirectory, h.resolves, h.directory]

namespace IsMade

theorem ne_root (h : IsMade fs fs' loc) : loc ≠ [] := by
  rintro rfl
  have hroot := h.before
  rw [node?_root] at hroot
  cases hroot

/-- What was made and is taken away again leaves the files as they were. -/
theorem eraseWithin_eq (h : IsMade fs fs' loc) : fs'.eraseWithin loc = fs := by
  have hinside : ∀ place, isWithin loc place = true → fs.node? place = none :=
    fun place hwithin => node?_below h.before hwithin
  have houtside : ∀ entry ∈ fs.nodes, isWithin loc entry.1 = false := by
    intro entry hentry
    rw [Bool.eq_false_iff]
    intro hwithin
    have hplace := ne_root_of_isWithin h.ne_root hwithin
    have habsent := hinside _ hwithin
    rw [(mem_nodes_iff hplace).1 hentry] at habsent
    cases habsent
  rw [h.inserted]
  ext1
  · have hkept : (fs.nodes.filter fun entry => entry.1 != loc) = fs.nodes := by
      refine List.filter_eq_self.2 fun entry hentry => ?_
      have hout := houtside entry hentry
      rw [bne_iff_ne]
      rintro rfl
      rw [isWithin_self] at hout
      cases hout
    rw [insert, dif_pos h.canPut]
    show ((fs.nodesWith loc .directory).filter fun entry => !isWithin loc entry.1) = fs.nodes
    rw [nodesWith, hkept, List.filter_cons_of_neg (by simp [isWithin_self])]
    exact List.filter_eq_self.2 fun entry hentry => by simp [houtside entry hentry]
  · exact cwd_insert fs loc _
  · funext place access
    show (if place ≠ [] ∧ isWithin loc place = true then none
      else (fs.insert loc .directory).refusal place access) = _
    rw [refusal_insert]
    split
    · rename_i hin
      exact (refusal_of_absent (hinside place hin.2) access).symm
    · rfl

/-- Its own maker is not kept from taking it away. -/
theorem removable (h : IsMade fs fs' loc) : fs'.Removable loc := by
  intro entry hentry hwithin
  have hplace := ne_root_of_isWithin h.ne_root hwithin
  -- nothing but the directory itself is there
  have hself : entry.1 = loc := by
    by_contra hother
    have hthere := (mem_nodes_iff hplace).1 hentry
    rw [h.elsewhere _ hother, node?_below h.before hwithin] at hthere
    cases hthere
  rw [h.refusal, hself]
  exact ⟨h.parent.1, h.parent.2, refusal_of_absent h.before _,
    fun _ => refusal_of_absent h.before _⟩

theorem removeTree_eq (h : IsMade fs fs' loc) : fs'.removeTree loc = ⟨fs, none⟩ := by
  rw [removeTree_of_removable h.ne_root h.after h.removable, h.eraseWithin_eq]

end IsMade

/-! ## Workspaces -/

/-- A path that ends in a name has no slashes at its end. -/
theorem withoutEndSlashes_join (base : Path) {name : Name} (hname : name ≠ [])
    (hslash : Path.slash ∉ name) : withoutEndSlashes (base / (⟨name⟩ : Path)) = base / ⟨name⟩ := by
  rcases List.eq_nil_or_concat name with hempty | ⟨start, final, hend⟩
  · exact absurd hempty hname
  rw [List.concat_eq_append] at hend
  have hfinal : final ≠ Path.slash := by
    rintro rfl
    exact hslash (by simp [hend])
  have hbytes : ∃ before, (base / (⟨name⟩ : Path)).bytes = before ++ [final] := by
    rw [Path.join_eq base (Path.isAbsolute_name hslash)]
    split
    · exact ⟨base.bytes ++ start, by simp [hend]⟩
    · exact ⟨base.bytes ++ Path.slash :: start, by simp [hend]⟩
  generalize base / (⟨name⟩ : Path) = p at hbytes
  rcases hbytes with ⟨before, hbytes⟩
  have hreverse : p.bytes.reverse = final :: before.reverse := by simp [hbytes]
  rw [withoutEndSlashes, if_neg (by simp [hbytes, hfinal]), hreverse,
    List.dropWhile_cons_of_neg (by simpa using hfinal), ← hreverse, List.reverse_reverse]

end FileSystem

namespace Workspace

open FileSystem

/-- A fresh workspace is a directory that was made, and its path leads there. -/
theorem isMade_of_makeFresh {fs fs' : FileSystem} {parent path : Path} {proposals : List Name}
    (h : makeFresh fs parent proposals = .ok (fs', path)) :
    ∃ loc, IsMade fs fs' loc ∧ LeadsTo fs' path loc := by
  induction proposals with
  | nil => cases h
  | cons proposal rest ih =>
    rw [makeFresh] at h
    split at h
    · exact ih h
    rename_i hname
    have hslash : Path.slash ∉ namePrefix ++ proposal := by
      rw [List.mem_append, not_or]
      exact ⟨by decide +kernel, by simpa using hname⟩
    have hempty : namePrefix ++ proposal ≠ [] :=
      List.append_ne_nil_of_left_ne_nil (by decide +kernel) proposal
    dsimp only at h
    split at h
    · rename_i made hmade
      cases h
      rw [makeDirectory, withoutEndSlashes_join parent hempty hslash] at hmade
      exact isMade_of_place hmade
    · -- a name that is taken is passed over, and nothing was done
      split at h
      · exact ih h
      · cases h

/-- A fresh workspace that is given up at once leaves the files as they were. -/
theorem given_up_of_makeFresh {fs fs' : FileSystem} {parent path : Path} {proposals : List Name}
    (h : makeFresh fs parent proposals = .ok (fs', path)) :
    fs'.removeDirectory path = ⟨fs, none⟩ := by
  rcases isMade_of_makeFresh h with ⟨loc, hmade, hleads⟩
  rw [hleads.removeDirectory, hmade.removeTree_eq]

end Workspace
end BootSigning
