import BootSigning.FileSystem.Edit

/-!
# Lookup — where paths lead

The walk along a path is a function with a bound on the links it follows.  For reasoning, the bound
does not matter; what matters is each single move.  This file states the moves:

* `FileSystem.FirstMove`: what a walk that leads to a place does with its first name;
* `FileSystem.Walks`: a walk from a place along names leads to a place, move by move;
* `FileSystem.walks_of_resolve`: every path that resolves is such a walk.

From them follow two laws of paths:

* `FileSystem.fileName?_isSome_of_isFile`: the path of a regular file ends in a name;
* `FileSystem.stat_of_write`: what was written is there, unless a device swallowed it.
-/

namespace BootSigning
namespace FileSystem

variable {fs : FileSystem} {last : LastName} {here loc : Location} {names : List Name}

/-! ## Walks, move by move -/

/-- A name that is looked up in a directory: neither the directory itself nor its parent. -/
def IsEntry (name : Name) : Prop := isIdle name = false ∧ isUp name = false

/-- There is a directory in which the name can be looked up. -/
structure Opens (fs : FileSystem) (here : Location) (name : Name) : Prop where
  directory : fs.node? here = some .directory
  allowed : fs.barrier? here name = none

/-- There is a directory in which every name can be looked up. -/
structure Searchable (fs : FileSystem) (here : Location) : Prop where
  directory : fs.node? here = some .directory
  allowed : fs.refusal here .execute = none

theorem Searchable.opens (h : Searchable fs here) (name : Name) : fs.Opens here name :=
  ⟨h.directory, by rw [barrier?, h.allowed, ite_self]⟩

theorem Opens.searchable {name : Name} (h : fs.Opens here name) (hname : name ≠ []) :
    Searchable fs here :=
  ⟨h.directory, by simpa [barrier?, hname] using h.allowed⟩

theorem opens_nil (h : fs.node? here = some .directory) : fs.Opens here [] := ⟨h, rfl⟩

theorem ne_nil_of_not_idle {name : Name} (h : isIdle name = false) : name ≠ [] := by
  rintro rfl
  cases h

/-! ### The first move -/

section

variable {jump : Location → List Name → Except Errno Location} {name : Name} {rest : List Name}

theorem walkNames_idle (hopen : fs.Opens here name) (hidle : isIdle name = true) :
    fs.walkNames last jump here (name :: rest) = fs.walkNames last jump here rest := by
  simp only [walkNames, hopen.directory, hopen.allowed, hidle, if_true]

theorem walkNames_up (hopen : fs.Opens here name) (hidle : isIdle name = false)
    (hup : isUp name = true) :
    fs.walkNames last jump here (name :: rest) = fs.walkNames last jump here.tail rest := by
  simp only [walkNames, hopen.directory, hopen.allowed, hidle, hup, if_true, Bool.false_eq_true,
    if_false]

theorem walkNames_free (hopen : fs.Opens here name) (hname : IsEntry name)
    (hlength : name.length ≤ maxName) (hfree : fs.node? (name :: here) = none) :
    fs.walkNames last jump here (name :: rest) =
      if rest.isEmpty && last.create then .ok (name :: here) else .error .noEntry := by
  simp only [walkNames, hopen.directory, hopen.allowed, hname.1, hname.2, Nat.not_lt.2 hlength,
    hfree, Bool.false_eq_true, if_false]

theorem walkNames_link {target : Path} (hopen : fs.Opens here name) (hname : IsEntry name)
    (hlength : name.length ≤ maxName) (hlink : fs.node? (name :: here) = some (.symlink target)) :
    fs.walkNames last jump here (name :: rest) =
      if rest.isEmpty && !last.follow then .ok (name :: here)
      else jump (origin here target) (target.pieces ++ rest) := by
  simp only [walkNames, hopen.directory, hopen.allowed, hname.1, hname.2, Nat.not_lt.2 hlength,
    hlink, Bool.false_eq_true, if_false]

theorem walkNames_enter {node : Node} (hopen : fs.Opens here name) (hname : IsEntry name)
    (hlength : name.length ≤ maxName) (hnode : fs.node? (name :: here) = some node)
    (hplain : ∀ target, node ≠ .symlink target) :
    fs.walkNames last jump here (name :: rest) = fs.walkNames last jump (name :: here) rest := by
  cases node with
  | symlink target => exact absurd rfl (hplain target)
  | _ =>
    simp only [walkNames, hopen.directory, hopen.allowed, hname.1, hname.2, Nat.not_lt.2 hlength,
      hnode, Bool.false_eq_true, if_false]

end

/-- What a walk from `here` does with its first name, if it goes on along the rest to a place. -/
inductive FirstMove (fs : FileSystem) (last : LastName)
    (jump : Location → List Name → Except Errno Location) (here : Location) (name : Name) :
    List Name → Location → Prop where
  | idle {rest : List Name} {loc : Location} (hidle : isIdle name = true)
      (hrest : fs.walkNames last jump here rest = .ok loc) :
      FirstMove fs last jump here name rest loc
  | up {rest : List Name} {loc : Location} (hidle : isIdle name = false) (hup : isUp name = true)
      (hrest : fs.walkNames last jump here.tail rest = .ok loc) :
      FirstMove fs last jump here name rest loc
  /-- The last name may be free, if something is to be made there. -/
  | make (hname : IsEntry name) (hlength : name.length ≤ maxName)
      (hfree : fs.node? (name :: here) = none) (hcreate : last.create = true) :
      FirstMove fs last jump here name [] (name :: here)
  /-- A link at the end may be what is meant. -/
  | stay {target : Path} (hname : IsEntry name) (hlength : name.length ≤ maxName)
      (hlink : fs.node? (name :: here) = some (.symlink target)) (hfollow : last.follow = false) :
      FirstMove fs last jump here name [] (name :: here)
  | jump {rest : List Name} {target : Path} {loc : Location} (hname : IsEntry name)
      (hlength : name.length ≤ maxName) (hlink : fs.node? (name :: here) = some (.symlink target))
      (hgo : (rest.isEmpty && !last.follow) = false)
      (hrest : jump (origin here target) (target.pieces ++ rest) = .ok loc) :
      FirstMove fs last jump here name rest loc
  | enter {rest : List Name} {node : Node} {loc : Location} (hname : IsEntry name)
      (hlength : name.length ≤ maxName) (hnode : fs.node? (name :: here) = some node)
      (hplain : ∀ target, node ≠ .symlink target)
      (hrest : fs.walkNames last jump (name :: here) rest = .ok loc) :
      FirstMove fs last jump here name rest loc

/-- A walk that leads to a place starts where its first name can be looked up. -/
theorem opens_of_walkNames {jump : Location → List Name → Except Errno Location} {name : Name}
    {rest : List Name} (h : fs.walkNames last jump here (name :: rest) = .ok loc) :
    fs.Opens here name := by
  rw [walkNames] at h
  split at h
  · cases h
  · rename_i hdir
    split at h
    · cases h
    · rename_i hallowed
      exact ⟨hdir, hallowed⟩
  · cases h

theorem firstMove_of_walkNames {jump : Location → List Name → Except Errno Location} {name : Name}
    {rest : List Name} (h : fs.walkNames last jump here (name :: rest) = .ok loc) :
    FirstMove fs last jump here name rest loc := by
  have hopen := opens_of_walkNames h
  cases hidle : isIdle name with
  | true =>
    rw [walkNames_idle hopen hidle] at h
    exact .idle hidle h
  | false =>
    cases hup : isUp name with
    | true =>
      rw [walkNames_up hopen hidle hup] at h
      exact .up hidle hup h
    | false =>
      have hlength : name.length ≤ maxName := by
        rw [← Nat.not_lt]
        intro hlong
        simp [walkNames, hopen.directory, hopen.allowed, hidle, hup, hlong] at h
      have hname : IsEntry name := ⟨hidle, hup⟩
      cases hnode : fs.node? (name :: here) with
      | none =>
        -- the walk may end here, if it is to make something
        rw [walkNames_free hopen hname hlength hnode] at h
        split at h
        · rename_i hend
          rw [Bool.and_eq_true, List.isEmpty_iff] at hend
          rcases hend with ⟨rfl, hcreate⟩
          cases h
          exact .make hname hlength hnode hcreate
        · cases h
      | some node =>
        by_cases hlink : ∃ target, node = .symlink target
        · -- a link at the end that is not to be followed, or a jump
          rcases hlink with ⟨target, rfl⟩
          rw [walkNames_link hopen hname hlength hnode] at h
          split at h
          · rename_i hend
            rw [Bool.and_eq_true, List.isEmpty_iff, Bool.not_eq_true'] at hend
            rcases hend with ⟨rfl, hfollow⟩
            cases h
            exact .stay hname hlength hnode hfollow
          · rename_i hgo
            exact .jump hname hlength hnode (by simpa using hgo) h
        · rw [not_exists] at hlink
          rw [walkNames_enter hopen hname hlength hnode hlink] at h
          exact .enter hname hlength hnode hlink h

/-! ### All moves -/

/-- The walk from `here` along names leads to a place. -/
inductive Walks (fs : FileSystem) (last : LastName) : Location → List Name → Location → Prop where
  | done (here : Location) : Walks fs last here [] here
  | idle {here : Location} {name : Name} {rest : List Name} {loc : Location}
      (hopen : fs.Opens here name) (hidle : isIdle name = true)
      (hrest : Walks fs last here rest loc) : Walks fs last here (name :: rest) loc
  | up {here : Location} {name : Name} {rest : List Name} {loc : Location}
      (hopen : fs.Opens here name) (hidle : isIdle name = false)
      (hup : isUp name = true) (hrest : Walks fs last here.tail rest loc) :
      Walks fs last here (name :: rest) loc
  /-- The last name may be free, if something is to be made there. -/
  | make {here : Location} {name : Name} (hopen : fs.Opens here name)
      (hname : IsEntry name) (hlength : name.length ≤ maxName)
      (hfree : fs.node? (name :: here) = none) (hcreate : last.create = true) :
      Walks fs last here [name] (name :: here)
  /-- A link at the end may be what is meant. -/
  | stay {here : Location} {name : Name} {target : Path} (hopen : fs.Opens here name)
      (hname : IsEntry name) (hlink : fs.node? (name :: here) = some (.symlink target))
      (hfollow : last.follow = false) : Walks fs last here [name] (name :: here)
  | jump {here : Location} {name : Name} {rest : List Name} {target : Path} {loc : Location}
      (hopen : fs.Opens here name) (hname : IsEntry name)
      (hlink : fs.node? (name :: here) = some (.symlink target))
      (hrest : Walks fs last (origin here target) (target.pieces ++ rest) loc) :
      Walks fs last here (name :: rest) loc
  | enter {here : Location} {name : Name} {rest : List Name} {node : Node} {loc : Location}
      (hopen : fs.Opens here name) (hname : IsEntry name)
      (hnode : fs.node? (name :: here) = some node) (hplain : ∀ target, node ≠ .symlink target)
      (hrest : Walks fs last (name :: here) rest loc) : Walks fs last here (name :: rest) loc

theorem walks_of_walkNames {jump : Location → List Name → Except Errno Location}
    (hjump : ∀ here names loc, jump here names = .ok loc → Walks fs last here names loc) :
    ∀ names here loc, fs.walkNames last jump here names = .ok loc →
      Walks fs last here names loc := by
  -- The names left are the measure; a link starts over with its own, and `hjump` answers for it.
  intro names
  induction names with
  | nil =>
    intro here loc h
    rw [walkNames] at h
    cases h
    exact .done here
  | cons name rest ih =>
    intro here loc h
    have hopen := opens_of_walkNames h
    cases firstMove_of_walkNames h with
    | idle hidle hrest => exact .idle hopen hidle (ih here loc hrest)
    | up hidle hup hrest => exact .up hopen hidle hup (ih here.tail loc hrest)
    | make hname hlength hfree hcreate => exact .make hopen hname hlength hfree hcreate
    | stay hname _ hlink hfollow => exact .stay hopen hname hlink hfollow
    | jump hname _ hlink _ hrest => exact .jump hopen hname hlink (hjump _ _ loc hrest)
    | enter hname _ hnode hplain hrest =>
      exact .enter hopen hname hnode hplain (ih (name :: here) loc hrest)

theorem walks_of_walk : ∀ links here names loc, fs.walk last links here names = .ok loc →
    Walks fs last here names loc := by
  -- Each link that is followed uses up one of those allowed.
  intro links
  induction links with
  | zero =>
    intro here names loc h
    exact walks_of_walkNames (by simp) names here loc h
  | succ links ih =>
    intro here names loc h
    exact walks_of_walkNames ih names here loc h

/-- A path that resolves has no zero byte, says something, and is walked from its origin. -/
theorem walk_of_resolve {p : Path} (h : fs.resolve last p = .ok loc) :
    p.bytes.contains 0 = false ∧ p.bytes ≠ [] ∧ ¬ maxPath ≤ p.bytes.length ∧
      fs.walk last maxLinks (origin fs.cwd p) p.pieces = .ok loc := by
  unfold resolve at h
  split at h
  · cases h
  · rename_i hzero
    split at h
    · cases h
    · rename_i hempty
      split at h
      · cases h
      · rename_i hlong
        split at h
        · rename_i found hwalk
          cases h
          exact ⟨by simpa using hzero, hempty, hlong, hwalk⟩
        · cases h

theorem walks_of_resolve {p : Path} (h : fs.resolve last p = .ok loc) :
    Walks fs last (origin fs.cwd p) p.pieces loc :=
  walks_of_walk _ _ _ _ (walk_of_resolve h).2.2.2

theorem pieces_ne_nil (p : Path) : p.pieces ≠ [] :=
  List.splitOn_ne_nil Path.slash p.bytes

theorem pieces_append_ne_nil (p : Path) (rest : List Name) : p.pieces ++ rest ≠ [] :=
  List.append_ne_nil_of_left_ne_nil (pieces_ne_nil p) rest

/-! ## The path of a file ends in a name -/

/-- What a list of names says at its end is not the name of an entry. -/
def EndsAbove (names : List Name) : Prop :=
  ∀ name ∈ (names.filter fun name => !isIdle name).getLast?, isUp name = true

theorem endsAbove_idle {name : Name} (hidle : isIdle name = true) :
    EndsAbove (name :: names) ↔ EndsAbove names := by
  simp [EndsAbove, hidle]

theorem endsAbove_of_up {name : Name} (hidle : isIdle name = false)
    (h : EndsAbove (name :: names)) : EndsAbove names := by
  intro final hfinal
  refine h final ?_
  simp only [hidle, Bool.not_false, List.filter_cons_of_pos, List.getLast?_cons]
  simp [Option.mem_def.1 hfinal]

/-- After the name of an entry, names that end above an entry say so by themselves. -/
theorem endsAbove_after_entry {name : Name} (hname : IsEntry name)
    (h : EndsAbove (name :: names)) (before : List Name) :
    names ≠ [] ∧ EndsAbove names ∧ EndsAbove (before ++ names) := by
  have hlast : ∃ final, (names.filter fun name => !isIdle name).getLast? = some final := by
    cases hfilter : (names.filter fun name => !isIdle name).getLast? with
    | some final => exact ⟨final, rfl⟩
    | none =>
      have hup := h name (by simp [hname.1, List.getLast?_eq_none_iff.1 hfilter])
      simp [hname.2] at hup
  rcases hlast with ⟨final, hfinal⟩
  have hends : EndsAbove names := endsAbove_of_up hname.1 h
  have hup : isUp final = true := hends final hfinal
  refine ⟨?_, hends, ?_⟩
  · rintro rfl
    simp at hfinal
  · intro other hother
    simp only [List.filter_append, List.getLast?_append, hfinal] at hother
    cases hother
    exact hup

/-- A directory's parent is a directory. -/
theorem node?_tail (h : fs.node? here = some .directory) :
    fs.node? here.tail = some .directory := by
  cases here with
  | nil => exact h
  | cons name parent => exact (parent_of_node? h).2

/-- A walk whose names do not end in the name of an entry leads to a directory. -/
theorem Walks.directory (h : Walks fs last here names loc) (hends : EndsAbove names)
    (hstart : names = [] → fs.node? here = some .directory) :
    fs.node? loc = some .directory := by
  induction h with
  | done here => exact hstart rfl
  | idle hopen hidle _ ih => exact ih ((endsAbove_idle hidle).1 hends) fun _ => hopen.directory
  | up hopen hidle _ _ ih =>
    exact ih (endsAbove_of_up hidle hends) fun _ => node?_tail hopen.directory
  -- The entry of the last name is no way to end above one.
  | make _ hname _ _ _ => exact absurd rfl (endsAbove_after_entry hname hends []).1
  | stay _ hname _ _ => exact absurd rfl (endsAbove_after_entry hname hends []).1
  | jump _ hname _ _ ih =>
    -- The link does not matter: what follows it already ends above an entry.
    rcases endsAbove_after_entry hname hends _ with ⟨_, _, happend⟩
    exact ih happend fun hnil => absurd hnil (pieces_append_ne_nil _ _)
  | enter _ hname _ _ _ ih =>
    rcases endsAbove_after_entry hname hends [] with ⟨hne, hrest, _⟩
    exact ih hrest fun hnil => absurd hnil hne

/-- The component that the name of a step stands for. -/
def componentOf (name : Name) : Path.Component := if isUp name then .up else .named name

theorem components_of_names (names : List Name) :
    names.filterMap Path.component? =
      (names.filter fun name => !isIdle name).map componentOf := by
  induction names with
  | nil => rfl
  | cons name rest ih =>
    by_cases hidle : isIdle name = true
    · have hnone : Path.component? name = none := by
        simp only [isIdle, Bool.or_eq_true, beq_iff_eq] at hidle
        simp [Path.component?, hidle]
      simp [hidle, hnone, ih]
    · have hsome : Path.component? name = some (componentOf name) := by
        simp only [isIdle, Bool.or_eq_true, beq_iff_eq] at hidle
        by_cases hup : name = [Path.dot, Path.dot] <;>
          simp [Path.component?, componentOf, isUp, hidle, hup]
      simp [hidle, hsome, ih]

/-- A path without a file name does not end in the name of an entry. -/
theorem endsAbove_pieces {p : Path} (h : p.fileName? = none) : EndsAbove p.pieces := by
  intro final hfinal
  have hsteps : (p.pieces.filterMap Path.component?).getLast? = some (componentOf final) := by
    rw [components_of_names, List.getLast?_map, Option.mem_def.1 hfinal]
    rfl
  -- a root or a leading dot in front does not change which step is the last
  have hlast : p.components.getLast? = some (componentOf final) := by
    simp only [Path.components]
    split
    · simp [List.getLast?_cons, hsteps]
    · split
      · simp [List.getLast?_cons, hsteps]
      · exact hsteps
  cases hup : isUp final with
  | true => rfl
  | false => simp [Path.fileName?, hlast, componentOf, hup] at h

/-- The path of a regular file ends in its name. -/
theorem fileName?_isSome_of_isFile {p : Path} (h : fs.isFile p = true) :
    ∃ name, p.fileName? = some name := by
  cases hname : p.fileName? with
  | some name => exact ⟨name, rfl⟩
  | none =>
    -- Without a file name the walk could only have come to a directory.
    exfalso
    cases hresolve : fs.resolve .target p with
    | error fault => simp [isFile, stat, hresolve, bind, Except.bind] at h
    | ok loc =>
      have hwalks : Walks fs .target (origin fs.cwd p) p.pieces loc := walks_of_resolve hresolve
      have hdir : fs.node? loc = some .directory :=
        hwalks.directory (endsAbove_pieces hname) fun hnil => absurd hnil (pieces_ne_nil p)
      simp [isFile, stat, hresolve, hdir, bind, Except.bind, pure, Except.pure] at h

/-! ## What was written is there -/

/-- A walk that follows every link does not end at one. -/
theorem Walks.not_link (h : Walks fs last here names loc) (hfollow : last.follow = true)
    (hstart : names = [] → ∀ target, fs.node? here ≠ some (.symlink target)) :
    ∀ target, fs.node? loc ≠ some (.symlink target) := by
  induction h with
  | done here => exact hstart rfl
  | idle hopen _ _ ih => exact ih fun _ => by simp [hopen.directory]
  | up hopen _ _ _ ih => exact ih fun _ => by simp [node?_tail hopen.directory]
  | make _ _ _ hfree _ => simp [hfree]
  | stay _ _ _ hstay => simp [hfollow] at hstay
  | jump _ _ _ _ ih =>
    exact ih fun hnil => absurd hnil (pieces_append_ne_nil _ _)
  | enter _ _ hnode hplain _ ih =>
    exact ih fun _ target => by simpa [hnode] using hplain target

/-- The place where a file is written. -/
def LastName.forWriting : LastName := ⟨true, true⟩

/-- Nothing hangs from the node and it leads nowhere else. -/
def IsLeaf (node : Node) : Prop := node ≠ .directory ∧ ∀ target, node ≠ .symlink target

/-- Two file systems agree but for one place, where leaves stand, or nothing yet in the first. -/
structure DifferAtLeaf (fs fs' : FileSystem) (loc : Location) : Prop where
  cwd : fs'.cwd = fs.cwd
  refusal : fs'.refusal = fs.refusal
  elsewhere : ∀ other, other ≠ loc → fs'.node? other = fs.node? other
  before : ∀ old, fs.node? loc = some old → IsLeaf old
  after : ∃ new, fs'.node? loc = some new ∧ IsLeaf new

/-- Two file systems agree but for one place: nothing was there, or a leaf, and now there is
something that is no link. -/
structure DifferAt (fs fs' : FileSystem) (place : Location) : Prop where
  cwd : fs'.cwd = fs.cwd
  refusal : fs'.refusal = fs.refusal
  elsewhere : ∀ other, other ≠ place → fs'.node? other = fs.node? other
  before : ∀ old, fs.node? place = some old → IsLeaf old
  after : ∃ new, fs'.node? place = some new ∧ ∀ target, new ≠ .symlink target

section

variable {fs' : FileSystem} {place : Location}

theorem DifferAtLeaf.differAt (h : DifferAtLeaf fs fs' place) : DifferAt fs fs' place where
  cwd := h.cwd
  refusal := h.refusal
  elsewhere := h.elsewhere
  before := h.before
  after := by
    rcases h.after with ⟨new, hnew, hleaf⟩
    exact ⟨new, hnew, hleaf.2⟩

theorem DifferAt.directory (h : DifferAt fs fs' place)
    (hdir : fs.node? here = some .directory) : fs'.node? here = some .directory := by
  have hhere : here ≠ place := by
    rintro rfl
    exact (h.before _ hdir).1 rfl
  rw [h.elsewhere here hhere, hdir]

theorem DifferAt.barrier? (h : DifferAt fs fs' place) (here : Location) (name : Name) :
    fs'.barrier? here name = fs.barrier? here name := by
  rw [FileSystem.barrier?, FileSystem.barrier?, h.refusal]

/-- Beyond a leaf there is nothing. -/
theorem walkNames_of_leaf {jump : Location → List Name → Except Errno Location} {node : Node}
    (hnode : fs.node? here = some node) (hleaf : IsLeaf node)
    (h : fs.walkNames last jump here names = .ok loc) : names = [] := by
  cases names with
  | nil => rfl
  | cons name rest =>
    rw [walkNames, hnode] at h
    cases node with
    | directory => exact absurd rfl hleaf.1
    | _ => cases h

theorem Opens.of_differ {name : Name} (h : fs.Opens here name) (hdiffer : DifferAt fs fs' place) :
    fs'.Opens here name :=
  ⟨hdiffer.directory h.directory, (hdiffer.barrier? here name).trans h.allowed⟩

/-- A link is not where the two differ. -/
theorem DifferAt.link {target : Path} (h : DifferAt fs fs' place)
    (hlink : fs.node? here = some (.symlink target)) :
    fs'.node? here = some (.symlink target) := by
  have hhere : here ≠ place := by
    rintro rfl
    exact (h.before _ hlink).2 target rfl
  rw [h.elsewhere here hhere, hlink]

theorem walkNames_of_differ (hdiffer : DifferAt fs fs' place)
    (hmade : last.create = true → loc = place)
    {jump jump' : Location → List Name → Except Errno Location}
    (hjump : ∀ here names, jump here names = .ok loc → jump' here names = .ok loc) :
    ∀ names here, fs.walkNames last jump here names = .ok loc →
      fs'.walkNames ⟨last.follow, false⟩ jump' here names = .ok loc := by
  -- The walks agree until they come to `place`, which is the end of both.
  have hend : ∀ {here name}, fs'.Opens here name → IsEntry name → name.length ≤ maxName →
      name :: here = place →
      fs'.walkNames ⟨last.follow, false⟩ jump' here [name] = .ok (name :: here) := by
    intro here name hopen hname hlength hplace
    rcases hdiffer.after with ⟨new, hnew, hplain⟩
    rw [walkNames_enter hopen hname hlength (hplace ▸ hnew) hplain, walkNames]
  intro names
  induction names with
  | nil =>
    intro here h
    rw [walkNames] at h ⊢
    exact h
  | cons name rest ih =>
    intro here h
    have hopen : fs'.Opens here name := (opens_of_walkNames h).of_differ hdiffer
    cases firstMove_of_walkNames h with
    | idle hidle hrest =>
      rw [walkNames_idle hopen hidle]
      exact ih here hrest
    | up hidle hup hrest =>
      rw [walkNames_up hopen hidle hup]
      exact ih here.tail hrest
    | make hname hlength _ hcreate => exact hend hopen hname hlength (hmade hcreate)
    | stay hname hlength hlink hfollow =>
      rw [walkNames_link hopen hname hlength (hdiffer.link hlink)]
      simp [hfollow]
    | jump hname hlength hlink hgo hrest =>
      rw [walkNames_link hopen hname hlength (hdiffer.link hlink), hgo]
      exact hjump _ _ hrest
    | enter hname hlength hnode hplain hrest =>
      by_cases hplace : name :: here = place
      · -- nothing can follow what stands there
        have hnil := walkNames_of_leaf hnode (hdiffer.before _ (hplace ▸ hnode)) hrest
        subst hnil
        rw [walkNames] at hrest
        cases hrest
        exact hend hopen hname hlength hplace
      · rw [walkNames_enter hopen hname hlength ((hdiffer.elsewhere _ hplace).trans hnode) hplain]
        exact ih (name :: here) hrest

theorem walk_of_differ (hdiffer : DifferAt fs fs' place)
    (hmade : last.create = true → loc = place) :
    ∀ links here names, fs.walk last links here names = .ok loc →
      fs'.walk ⟨last.follow, false⟩ links here names = .ok loc := by
  intro links
  induction links with
  | zero =>
    intro here names h
    exact walkNames_of_differ hdiffer hmade (by simp) names here h
  | succ links ih =>
    intro here names h
    exact walkNames_of_differ hdiffer hmade ih names here h

/-- A path leads where it did; to what was made at its end, it leads now. -/
theorem resolve_of_differ {p : Path} (hdiffer : DifferAt fs fs' place)
    (hmade : last.create = true → loc = place) (h : fs.resolve last p = .ok loc) :
    fs'.resolve ⟨last.follow, false⟩ p = .ok loc := by
  rcases walk_of_resolve h with ⟨hzero, hempty, hlong, hwalk⟩
  have horigin : origin fs'.cwd p = origin fs.cwd p := by rw [hdiffer.cwd]
  have hfound := walk_of_differ hdiffer hmade _ _ _ hwalk
  unfold resolve
  rw [if_neg (by simpa using hzero), if_neg hempty, if_neg hlong, horigin, hfound]

/-! ### Writing -/

/-- The bytes of a name as it stands between the slashes of a path. -/
def IsPiece (name : Name) : Prop := name.contains Path.slash = false ∧ name.contains 0 = false

/-- Splitting leaves no separator, and no element that was not there before. -/
theorem mem_splitOn {α : Type} [BEq α] [LawfulBEq α] {sep byte : α} :
    ∀ {bytes piece : List α}, piece ∈ bytes.splitOn sep → byte ∈ piece →
      byte ≠ sep ∧ byte ∈ bytes := by
  intro bytes
  induction bytes with
  | nil =>
    intro piece hpiece hbyte
    simp only [List.splitOn_nil, List.mem_singleton] at hpiece
    subst hpiece
    cases hbyte
  | cons first rest ih =>
    intro piece hpiece hbyte
    rw [List.splitOn_cons_eq_if_modifyHead] at hpiece
    by_cases hsep : first = sep
    · -- a separator is an empty piece before the others
      simp only [hsep, BEq.rfl, if_true, List.mem_cons] at hpiece
      rcases hpiece with rfl | hpiece
      · simp at hbyte
      · have hmem := ih hpiece hbyte
        exact ⟨hmem.1, List.mem_cons_of_mem _ hmem.2⟩
    · -- any other byte goes in front of the first piece
      simp only [beq_iff_eq, hsep, if_false] at hpiece
      cases hsplit : rest.splitOn sep with
      | nil => exact absurd hsplit (List.splitOn_ne_nil sep rest)
      | cons head tail =>
        simp only [hsplit, List.modifyHead_cons, List.mem_cons] at hpiece
        rcases hpiece with rfl | hpiece
        · rcases List.mem_cons.1 hbyte with rfl | hbyte
          · exact ⟨hsep, List.mem_cons_self⟩
          · have hhead : head ∈ rest.splitOn sep := by simp [hsplit]
            have hmem := ih hhead hbyte
            exact ⟨hmem.1, List.mem_cons_of_mem _ hmem.2⟩
        · have htail : piece ∈ rest.splitOn sep := by simp [hsplit, hpiece]
          have hmem := ih htail hbyte
          exact ⟨hmem.1, List.mem_cons_of_mem _ hmem.2⟩

theorem isPiece_of_mem_pieces {p : Path} (hzero : p.bytes.contains 0 = false) :
    ∀ name ∈ p.pieces, IsPiece name := by
  intro name hname
  have hzero : (0 : UInt8) ∉ p.bytes := by simpa using hzero
  have hslash : Path.slash ∉ name := fun h => (mem_splitOn hname h).1 rfl
  have hname : (0 : UInt8) ∉ name := fun h => hzero (mem_splitOn hname h).2
  exact ⟨by simpa using hslash, by simpa using hname⟩

theorem contains_zero_of_link {target : Path} (h : fs.node? loc = some (.symlink target)) :
    target.bytes.contains 0 = false := by
  have hloc : loc ≠ [] := by
    rintro rfl
    simp at h
  have hmem := (mem_nodes_iff hloc).2 h
  simpa [Node.isProper] using fs.proper _ hmem

/-- What a proper name is not, byte by byte and as a whole. -/
theorem isProperName_iff {name : Name} :
    isProperName name = true ↔
      IsEntry name ∧ IsPiece name ∧ name.length ≤ maxName := by
  simp only [isProperName, IsEntry, IsPiece, Bool.and_eq_true, Bool.not_eq_true',
    decide_eq_true_eq, and_assoc]

theorem isName_of_isProperName {name : Name} (h : isProperName name = true) :
    Path.slash ∉ name ∧ IsEntry name := by
  rcases isProperName_iff.1 h with ⟨hentry, hpiece, _⟩
  exact ⟨by simpa using hpiece.1, hentry⟩

/-- A walk that ends where nothing is ends at a free name of a directory. -/
theorem Walks.free (h : Walks fs last here names loc) (hnames : ∀ name ∈ names, IsPiece name)
    (hstart : names = [] → fs.node? here ≠ none) (hfree : fs.node? loc = none) :
    ∃ name parent, loc = name :: parent ∧ isProperName name = true ∧ Searchable fs parent := by
  induction h with
  | done here => exact absurd hfree (hstart rfl)
  | idle hopen _ _ ih =>
    have hrest := (List.forall_mem_cons.1 hnames).2
    exact ih hrest (by simp [hopen.directory]) hfree
  | up hopen _ _ _ ih =>
    have hrest := (List.forall_mem_cons.1 hnames).2
    exact ih hrest (by simp [node?_tail hopen.directory]) hfree
  | @make here name hopen hname hlength _ _ =>
    have hpiece : IsPiece name := hnames name List.mem_cons_self
    exact ⟨name, here, rfl, isProperName_iff.2 ⟨hname, hpiece, hlength⟩,
      hopen.searchable (ne_nil_of_not_idle hname.1)⟩
  | stay _ _ hlink _ => simp [hlink] at hfree
  | jump _ _ hlink _ ih =>
    -- the names of a link are pieces of a path too, since the file system keeps links proper
    have htarget := isPiece_of_mem_pieces (contains_zero_of_link hlink)
    have hrest := (List.forall_mem_cons.1 hnames).2
    refine ih (List.forall_mem_append.2 ⟨htarget, hrest⟩) ?_ hfree
    exact fun hnil => absurd hnil (pieces_append_ne_nil _ _)
  | enter _ _ hnode _ _ ih =>
    have hrest := (List.forall_mem_cons.1 hnames).2
    exact ih hrest (by simp [hnode]) hfree

/-- A file can be put where there is none yet, and where a file is. -/
theorem canPut_file {p : Path} {mode : Nat} {content : List UInt8}
    (h : fs.resolve .forWriting p = .ok loc)
    (hnode : ∀ old, fs.node? loc = some old → IsLeaf old) :
    fs.canPut (.file mode content) loc = true := by
  have hplace : ∃ name parent, loc = name :: parent ∧ isProperName name = true ∧
      fs.node? parent = some .directory := by
    cases hold : fs.node? loc with
    | none =>
      -- a new name must be checked; one that is there was proper when it was made
      rcases (walks_of_resolve h).free (isPiece_of_mem_pieces (walk_of_resolve h).1)
        (fun hnil => absurd hnil (pieces_ne_nil p)) hold with ⟨name, parent, hloc, hname, hopen⟩
      exact ⟨name, parent, hloc, hname, hopen.directory⟩
    | some old =>
      cases loc with
      | nil =>
        cases hold
        exact absurd rfl (hnode _ rfl).1
      | cons name parent =>
        exact ⟨name, parent, rfl, parent_of_node? hold⟩
  rcases hplace with ⟨name, parent, rfl, hname, hparent⟩
  have hdir : fs.node? (name :: parent) ≠ some .directory := fun hdir => (hnode _ hdir).1 rfl
  simp [canPut, Node.isProper, hname, hparent, hdir]

theorem differAtLeaf_insert {p : Path} (mode : Nat) (content : List UInt8)
    (h : fs.resolve .forWriting p = .ok loc)
    (hnode : ∀ old, fs.node? loc = some old → IsLeaf old) :
    DifferAtLeaf fs (fs.insert loc (.file mode content)) loc where
  cwd := cwd_insert fs loc _
  refusal := refusal_insert fs loc _
  elsewhere other hother := by rw [node?_insert (canPut_file h hnode), if_neg hother]
  before := hnode
  after := ⟨.file mode content, by rw [node?_insert (canPut_file h hnode), if_pos rfl],
    by simp [IsLeaf]⟩

theorem stat_of_resolve {p : Path} {node : Node} (h : fs.resolve .target p = .ok loc)
    (hnode : fs.node? loc = some node) : fs.stat p = .ok node := by
  simp [stat, h, hnode, bind, Except.bind, pure, Except.pure]

/-- What goes on only if an access is permitted. -/
theorem permit_of_bind {α : Type} {access : Access} {x : Except Fault α} {a : α}
    (h : (do fs.permit loc access; x) = .ok a) : fs.refusal loc access = none ∧ x = .ok a := by
  cases hpermit : fs.permit loc access with
  | error fault => simp [hpermit, bind, Except.bind] at h
  | ok u => exact ⟨permit_eq_ok_iff.1 hpermit, by simpa [hpermit, bind, Except.bind] using h⟩

theorem resolve_of_stat {p : Path} {node : Node} (h : fs.stat p = .ok node) :
    ∃ loc, fs.resolve .target p = .ok loc ∧ fs.node? loc = some node := by
  cases hresolve : fs.resolve .target p with
  | error fault => simp [stat, hresolve, bind, Except.bind] at h
  | ok loc =>
    refine ⟨loc, rfl, ?_⟩
    cases hnode : fs.node? loc with
    | none =>
      simp [stat, hresolve, hnode, bind, Except.bind, throw, throwThe, MonadExceptOf.throw] at h
    | some found => simpa [stat, hresolve, hnode, bind, Except.bind, pure, Except.pure] using h

/-- What is read is the content of a file, or nothing, from a device. -/
theorem stat_of_read {p : Path} {bytes : List UInt8} (h : fs.read p = .ok bytes) :
    (∃ mode, fs.stat p = .ok (.file mode bytes)) ∨ fs.stat p = .ok .sink ∧ bytes = [] := by
  cases hresolve : fs.resolve .target p with
  | error fault => simp [read, hresolve, bind, Except.bind] at h
  | ok loc =>
    have hwalks : Walks fs .target (origin fs.cwd p) p.pieces loc := walks_of_resolve hresolve
    have hlink := hwalks.not_link rfl fun hnil => absurd hnil (pieces_ne_nil p)
    simp only [read, hresolve, bind, Except.bind] at h
    cases hnode : fs.node? loc with
    | none => simp [hnode, throw, throwThe, MonadExceptOf.throw] at h
    | some node =>
      have hread := (permit_of_bind (hnode ▸ h)).2
      cases node with
      | directory => cases hread
      | file mode content =>
        cases hread
        exact .inl ⟨mode, stat_of_resolve hresolve hnode⟩
      | symlink target => exact absurd hnode (hlink target)
      | sink =>
        cases hread
        exact .inr ⟨stat_of_resolve hresolve hnode, rfl⟩

/-- Writing changes one leaf, to a file with the content unless a device is there. -/
theorem differ_of_write {fs' : FileSystem} {p : Path} {content : List UInt8}
    (h : fs.write p content = .ok fs') :
    ∃ loc, fs.resolve .forWriting p = .ok loc ∧ DifferAtLeaf fs fs' loc ∧
      ((∃ mode, fs'.node? loc = some (.file mode content)) ∨ fs'.node? loc = some .sink) := by
  cases hresolve : fs.resolve ⟨true, true⟩ p with
  | error fault => simp [write, hresolve, bind, Except.bind] at h
  | ok loc =>
    have hwalks : Walks fs .forWriting (origin fs.cwd p) p.pieces loc := walks_of_resolve hresolve
    have hlink := hwalks.not_link rfl fun hnil => absurd hnil (pieces_ne_nil p)
    have hinsert : ∀ mode, (∀ old, fs.node? loc = some old → IsLeaf old) →
        DifferAtLeaf fs (fs.insert loc (.file mode content)) loc ∧
          (fs.insert loc (.file mode content)).node? loc = some (.file mode content) := by
      intro mode hleaf
      refine ⟨differAtLeaf_insert mode content hresolve hleaf, ?_⟩
      rw [node?_insert (canPut_file hresolve hleaf), if_pos rfl]
    simp only [write, hresolve, bind, Except.bind] at h
    refine ⟨loc, hresolve, ?_⟩
    cases hnode : fs.node? loc with
    | none =>
      rcases permit_of_bind (hnode ▸ h) with ⟨-, h⟩
      cases h
      rcases hinsert newFileMode (by simp [hnode]) with ⟨hdiffer, hnew⟩
      exact ⟨hdiffer, .inl ⟨_, hnew⟩⟩
    | some node =>
      cases node with
      | directory => simp [hnode] at h
      | file mode old =>
        rcases permit_of_bind (hnode ▸ h) with ⟨-, h⟩
        cases h
        rcases hinsert mode (by simp [hnode, IsLeaf]) with ⟨hdiffer, hnew⟩
        exact ⟨hdiffer, .inl ⟨_, hnew⟩⟩
      | symlink target => exact absurd hnode (hlink target)
      | sink =>
        -- nothing is stored, so the file system differs nowhere
        rcases permit_of_bind (hnode ▸ h) with ⟨-, h⟩
        cases h
        exact ⟨⟨rfl, rfl, fun _ _ => rfl, by simp [hnode, IsLeaf], .sink, hnode, by simp [IsLeaf]⟩,
          .inr hnode⟩

/-- What was written is there, unless a device swallowed it. -/
theorem stat_of_write {fs' : FileSystem} {p : Path} {content : List UInt8}
    (h : fs.write p content = .ok fs') :
    (∃ mode, fs'.stat p = .ok (.file mode content)) ∨ fs'.stat p = .ok .sink := by
  rcases differ_of_write h with ⟨loc, hresolve, hdiffer, hnew⟩
  have hfound : fs'.resolve .target p = .ok loc :=
    resolve_of_differ hdiffer.differAt (fun _ => rfl) hresolve
  exact hnew.imp (fun ⟨mode, hfile⟩ => ⟨mode, stat_of_resolve hfound hfile⟩)
    (stat_of_resolve hfound)

end

end FileSystem
end BootSigning
