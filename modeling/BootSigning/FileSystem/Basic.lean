import BootSigning.FileSystem.Fault

/-!
# File systems

A tree of directories, files and symbolic links, kept as a finite map from places to nodes.

* `Location`: a place in the tree
* `Node`: what stands at a place
* `Access`: what a process may want with it, and be refused
* `FileSystem`: the map, the directory that relative paths start from, and the refusals; every place
  hangs from a directory under a proper name
* `FileSystem.node?`, `FileSystem.insert`, `FileSystem.eraseWithin`: reading and changing it
* `FileSystem.names`: the names in a directory
-/

namespace BootSigning

/-- A place in the tree: the names on the way from it up to the root, which is `[]`. -/
abbrev Location := List Name

/-- What stands at a place. -/
inductive Node where
  | directory
  /-- A regular file, with its permission bits. -/
  | file (mode : Nat) (content : List UInt8)
  | symlink (target : Path)
  /-- A device that swallows what is written and has nothing to read. -/
  | sink
  deriving DecidableEq, Repr

/-- The node can exist: a link's target has no zero byte. -/
def Node.isProper : Node → Bool
  | .symlink target => !target.bytes.contains 0
  | _ => true

/-- What a process may want with what stands at a place. -/
inductive Access where
  /-- The content of a file, or the names in a directory. -/
  | read
  /-- Other content in a file, or other entries in a directory. -/
  | write
  /-- A file run as a program, or names looked up in a directory. -/
  | execute
  /-- The place without what stands there. -/
  | remove
  deriving DecidableEq, Repr

namespace FileSystem

/-! ## Names -/

/-- A name that stands for the directory it is looked up in. -/
def isIdle (name : Name) : Bool := name == [] || name == [Path.dot]

def isUp (name : Name) : Bool := name == [Path.dot, Path.dot]

/-- The longest name the system takes, in bytes. -/
def maxName : Nat := 255

/-- A name under which something can stand in a directory. -/
def isProperName (name : Name) : Bool :=
  !isIdle name && !isUp name && !name.contains Path.slash && !name.contains 0 &&
    decide (name.length ≤ maxName)

/-- A place has a proper name and hangs from the root or from a directory that is listed. -/
def Hangs (nodes : List (Location × Node)) : Location → Prop
  | [] => False
  | name :: parent => isProperName name = true ∧ (parent = [] ∨ (parent, Node.directory) ∈ nodes)

instance (nodes : List (Location × Node)) : DecidablePred (Hangs nodes)
  | [] => inferInstanceAs (Decidable False)
  | name :: parent => inferInstanceAs
      (Decidable (isProperName name = true ∧ (parent = [] ∨ (parent, Node.directory) ∈ nodes)))

/-- The place is `top` or lies below it. -/
def isWithin (top loc : Location) : Bool := top.isSuffixOf loc

end FileSystem

/-- A file system as one process sees it. -/
@[ext] structure FileSystem where
  /-- Every place but the root that holds something. -/
  nodes : List (Location × Node)
  /-- The directory that relative paths start from. -/
  cwd : Location
  /--
  Why the system refuses the process an access, if it does: the rights of the process, a device that
  cannot be written or read, or anything else that stands in its way.
  -/
  refusal : Location → Access → Option Errno := fun _ _ => none
  /-- No place is listed twice. -/
  distinct : (nodes.map Prod.fst).Nodup
  /-- The places form a tree of directories. -/
  hangs : ∀ entry ∈ nodes, FileSystem.Hangs nodes entry.1
  /-- Every node can exist. -/
  proper : ∀ entry ∈ nodes, entry.2.isProper = true
  /-- Only what is there can be refused: what the process makes itself is its own. -/
  owned : ∀ loc, loc ≠ [] → loc ∉ nodes.map Prod.fst → ∀ access, refusal loc access = none := by
    intros; rfl

namespace FileSystem

/-- The file system with nothing but its root. -/
def empty : FileSystem where
  nodes := []
  cwd := []
  distinct := by simp
  hangs := by simp
  proper := by simp

instance : Inhabited FileSystem := ⟨empty⟩

/-! ## Reading -/

def node? (fs : FileSystem) (loc : Location) : Option Node :=
  if loc = [] then some .directory else fs.nodes.lookup loc

/-- The name of a place inside the directory `dir`, if that is where it is. -/
def nameIn? (dir : Location) : Location → Option Name
  | name :: parent => if parent = dir then some name else none
  | [] => none

def names (fs : FileSystem) (dir : Location) : List Name :=
  fs.nodes.filterMap fun entry => nameIn? dir entry.1

@[simp] theorem node?_root (fs : FileSystem) : fs.node? [] = some .directory := rfl

/-- In a list without double places, looking up a place finds exactly what is listed there. -/
theorem lookup_eq_some_iff_mem {nodes : List (Location × Node)} {loc : Location} {node : Node}
    (distinct : (nodes.map Prod.fst).Nodup) :
    nodes.lookup loc = some node ↔ (loc, node) ∈ nodes := by
  induction nodes with
  | nil => simp
  | cons entry rest ih =>
    obtain ⟨first, there⟩ := entry
    obtain ⟨absent, distinct⟩ := List.nodup_cons.1 distinct
    by_cases hloc : loc = first
    · subst hloc
      have hrest : (loc, node) ∉ rest := fun h => absent (List.mem_map.2 ⟨_, h, rfl⟩)
      simp [hrest, eq_comm]
    · have hbeq : (loc == first) = false := by simpa using hloc
      simp [List.lookup_cons, hbeq, hloc, ih distinct]

/-- A node stands at a place other than the root exactly if it is listed there. -/
theorem mem_nodes_iff {fs : FileSystem} {loc : Location} {node : Node} (hloc : loc ≠ []) :
    (loc, node) ∈ fs.nodes ↔ fs.node? loc = some node := by
  simp only [node?, hloc, if_false, lookup_eq_some_iff_mem fs.distinct]

/-- What holds something is a directory's entry under a proper name. -/
theorem parent_of_node? {fs : FileSystem} {name : Name} {parent : Location} {node : Node}
    (h : fs.node? (name :: parent) = some node) :
    isProperName name = true ∧ fs.node? parent = some .directory := by
  have hmem := (mem_nodes_iff (List.cons_ne_nil name parent)).2 h
  obtain ⟨hname, hparent⟩ := fs.hangs _ hmem
  refine ⟨hname, ?_⟩
  rcases hparent with rfl | hparent
  · rfl
  · by_cases hroot : parent = []
    · simp [hroot]
    · exact (mem_nodes_iff hroot).1 hparent

/-- Where nothing stands nothing is refused. -/
theorem refusal_of_absent {fs : FileSystem} {loc : Location} (h : fs.node? loc = none)
    (access : Access) : fs.refusal loc access = none := by
  have hloc : loc ≠ [] := by
    rintro rfl
    cases h
  refine fs.owned loc hloc (fun hmem => ?_) access
  rcases List.mem_map.1 hmem with ⟨⟨_, node⟩, hentry, rfl⟩
  rw [(mem_nodes_iff hloc).1 hentry] at h
  cases h

/-- With an access to what stands at a place refused, or granted. -/
def withRefusal (fs : FileSystem) (loc : Location) (access : Access) (reason : Option Errno) :
    FileSystem :=
  { fs with
    refusal := fun place wanted =>
      if place = loc ∧ wanted = access ∧ fs.node? loc ≠ none then reason
      else fs.refusal place wanted
    owned := by
      intro place hplace hfree wanted
      split
      · rename_i h
        rcases h with ⟨rfl, -, hthere⟩
        rcases Option.ne_none_iff_exists'.1 hthere with ⟨node, hnode⟩
        exact absurd (List.mem_map_of_mem ((mem_nodes_iff hplace).2 hnode)) hfree
      · exact fs.owned place hplace hfree wanted }

/-- Nothing, unless the system refuses an access. -/
def permit (fs : FileSystem) (loc : Location) (access : Access) : Except Fault Unit :=
  match fs.refusal loc access with
  | some errno => .error (.os errno)
  | none => .ok ()

theorem permit_eq_ok_iff {fs : FileSystem} {loc : Location} {access : Access} :
    fs.permit loc access = .ok () ↔ fs.refusal loc access = none := by
  rw [permit]
  cases fs.refusal loc access <;> simp

/-! ## Changing -/

/-- Without a place and all below it. -/
def eraseWithin (fs : FileSystem) (top : Location) : FileSystem where
  nodes := fs.nodes.filter fun entry => !isWithin top entry.1
  cwd := fs.cwd
  refusal loc access := if loc ≠ [] ∧ isWithin top loc = true then none else fs.refusal loc access
  distinct := fs.distinct.sublist ((List.filter_sublist).map Prod.fst)
  hangs := by
    intro ⟨loc, node⟩ hmem
    obtain ⟨hmem, hout⟩ := List.mem_filter.1 hmem
    cases loc with
    | nil => exact fs.hangs _ hmem
    | cons name parent =>
      -- what stays is not below `top`, so neither is the directory it hangs from
      refine (fs.hangs _ hmem).imp id (Or.imp id fun hparent => List.mem_filter.2 ⟨hparent, ?_⟩)
      simp only [isWithin, Bool.not_eq_true', Bool.eq_false_iff, ne_eq,
        List.isSuffixOf_iff_suffix] at hout ⊢
      exact fun h => hout (h.trans (List.suffix_cons name parent))
  proper entry hmem := fs.proper entry (List.mem_filter.1 hmem).1
  owned loc hloc hfree access := by
    split
    · rfl
    · rename_i hout
      refine fs.owned loc hloc (fun hmem => hfree ?_) access
      rcases List.mem_map.1 hmem with ⟨entry, hentry, rfl⟩
      have hout : isWithin top entry.1 = false := by simpa [hloc] using hout
      exact List.mem_map_of_mem (List.mem_filter.2 ⟨hentry, by simp [hout]⟩)

/--
A node can be put at a place: the place hangs from a directory, and where a directory stands, which
may have something below it, only a directory can be put.
-/
def canPut (fs : FileSystem) (node : Node) : Location → Bool
  | [] => false
  | name :: parent =>
    node.isProper && isProperName name && decide (fs.node? parent = some .directory) &&
      (decide (node = .directory) || decide (fs.node? (name :: parent) ≠ some .directory))

/-- The places without one of them, and a node there that can be put there. -/
def nodesWith (fs : FileSystem) (loc : Location) (node : Node) : List (Location × Node) :=
  (loc, node) :: fs.nodes.filter fun entry => entry.1 != loc

theorem hangs_nodesWith {fs : FileSystem} {loc : Location} {node : Node}
    (h : fs.canPut node loc = true) :
    ∀ entry ∈ fs.nodesWith loc node, Hangs (fs.nodesWith loc node) entry.1 := by
  -- A directory that was listed still is, be it as the new node.
  have hkeep : ∀ dir, (dir, Node.directory) ∈ fs.nodes →
      (dir, Node.directory) ∈ fs.nodesWith loc node := by
    intro dir hdir
    by_cases hloc : dir = loc
    · subst hloc
      cases dir with
      | nil => exact (fs.hangs _ hdir).elim
      | cons name parent =>
        have hthere := (mem_nodes_iff (List.cons_ne_nil name parent)).1 hdir
        simp only [canPut, hthere, Bool.and_eq_true, Bool.or_eq_true, decide_eq_true_eq, ne_eq,
          not_true_eq_false, or_false] at h
        simp [nodesWith, h.2]
    · simp [nodesWith, hdir, hloc]
  intro entry hmem
  rcases List.mem_cons.1 hmem with rfl | hmem
  · cases loc with
    | nil => simp [canPut] at h
    | cons name parent =>
      simp only [canPut, Bool.and_eq_true, decide_eq_true_eq] at h
      refine ⟨h.1.1.2, ?_⟩
      by_cases hroot : parent = []
      · exact Or.inl hroot
      · exact Or.inr (hkeep parent ((mem_nodes_iff hroot).2 h.1.2))
  · have hold := fs.hangs entry (List.mem_filter.1 hmem).1
    cases hloc : entry.1 with
    | nil => exact (hloc ▸ hold : Hangs fs.nodes []).elim
    | cons name parent =>
      have hold : Hangs fs.nodes (name :: parent) := hloc ▸ hold
      exact hold.imp id (Or.imp id (hkeep parent))

/-- With `node` at a place, instead of what stood there; as it is where the node cannot be put. -/
def insert (fs : FileSystem) (loc : Location) (node : Node) : FileSystem :=
  if h : fs.canPut node loc = true then
    { nodes := fs.nodesWith loc node
      cwd := fs.cwd
      refusal := fs.refusal
      distinct := by
        -- the old entry of the place is left out, and no other is touched
        have hrest := fs.distinct.sublist ((List.filter_sublist (p := fun e => e.1 != loc)).map _)
        refine List.nodup_cons.2 ⟨fun hmem => ?_, hrest⟩
        obtain ⟨entry, hmem, rfl⟩ := List.mem_map.1 hmem
        simpa using (List.mem_filter.1 hmem).2
      hangs := hangs_nodesWith h
      proper := by
        intro entry hmem
        rcases List.mem_cons.1 hmem with rfl | hmem
        · cases loc with
          | nil => simp [canPut] at h
          | cons name parent =>
            simp only [canPut, Bool.and_eq_true] at h
            exact h.1.1.1
        · exact fs.proper entry (List.mem_filter.1 hmem).1
      owned := by
        intro other hother hfree
        refine fs.owned other hother fun hmem => hfree ?_
        rcases List.mem_map.1 hmem with ⟨entry, hentry, rfl⟩
        by_cases hloc : entry.1 = loc
        · simp [nodesWith, hloc]
        · refine List.mem_map_of_mem (List.mem_cons_of_mem _ (List.mem_filter.2 ⟨hentry, ?_⟩))
          simpa using hloc }
  else fs

/-- After a node was put at a place, it stands there, and all else is as it was. -/
theorem node?_insert {fs : FileSystem} {loc : Location} {node : Node}
    (h : fs.canPut node loc = true) (other : Location) :
    (fs.insert loc node).node? other = if other = loc then some node else fs.node? other := by
  by_cases hroot : other = []
  · subst hroot
    have hloc : ([] : Location) ≠ loc := by
      rintro rfl
      simp [canPut] at h
    simp [hloc]
  · rw [Option.ext_iff]
    intro found
    rw [← mem_nodes_iff hroot, insert, dif_pos h]
    by_cases hloc : other = loc
    · simp [hloc, nodesWith, eq_comm]
    · simp [hloc, nodesWith, mem_nodes_iff hroot]

@[simp] theorem cwd_insert (fs : FileSystem) (loc : Location) (node : Node) :
    (fs.insert loc node).cwd = fs.cwd := by
  unfold insert
  split <;> rfl

@[simp] theorem refusal_insert (fs : FileSystem) (loc : Location) (node : Node) :
    (fs.insert loc node).refusal = fs.refusal := by
  unfold insert
  split <;> rfl

end FileSystem

end BootSigning
