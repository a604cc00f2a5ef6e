import BootSigning.Proofs.Lookup

/-!
# Ways — paths that lead to one place

A path may repeat slashes and spell out dots that say nothing.  What is left, its steps, decides
where it leads, as long as there is a directory wherever something was left out.

* `Path.steps`: the names and the `..` of a path;
* `FileSystem.Follows`: the walk to something that is there, with the number of links it may follow;
* `Follows.thin`, `Follows.thicken`: names that say nothing can be left out, and put in;
* `Follows.split`: a walk past a name passes through a directory with that name.

For paths they say that what lies below a directory is one of its entries, `hasEntry_of_stat`,
and that paths with the same steps lead to the same directory, `resolve_of_sameWay`.
-/

namespace BootSigning

/-! ## Steps of a path -/

namespace Path

/-- What a path spells out, without empty names and single dots. -/
def steps (p : Path) : List Name := p.pieces.filter fun name => !FileSystem.isIdle name

/-- The bytes of a path before a slash and after it are split apart. -/
theorem steps_append (before after : List UInt8) :
    steps ⟨before ++ slash :: after⟩ = steps ⟨before⟩ ++ steps ⟨after⟩ := by
  have hpieces : pieces ⟨before ++ slash :: after⟩ = pieces ⟨before⟩ ++ pieces ⟨after⟩ :=
    List.splitOn_append_cons_self before after
  rw [steps, hpieces, List.filter_append]
  rfl

theorem steps_nil : steps ⟨[]⟩ = [] := rfl

theorem join_eq (base : Path) {child : Path} (hchild : child.isAbsolute = false) :
    base / child = if base.bytes.isEmpty || base.bytes.getLast? == some slash
      then ⟨base.bytes ++ child.bytes⟩ else ⟨base.bytes ++ slash :: child.bytes⟩ := by
  show join base child = _
  rw [join, hchild]
  rfl

/-- The steps below a directory come after its own. -/
theorem steps_join (base : Path) {child : Path} (hchild : child.isAbsolute = false) :
    (base / child).steps = base.steps ++ child.steps := by
  rw [join_eq base hchild]
  rcases List.eq_nil_or_concat base.bytes with hempty | ⟨before, final, hbytes⟩
  · -- nothing comes before the child
    have hbase : base = ⟨[]⟩ := by rw [← hempty]
    subst hbase
    rfl
  · by_cases hslash : final = slash
    · -- the slash at the end is the one in between
      have hends : (base.bytes.isEmpty || base.bytes.getLast? == some slash) = true := by
        simp [hbytes, hslash]
      have hbase : base.steps = steps ⟨before⟩ := by
        have hown := steps_append before []
        rw [steps_nil, List.append_nil] at hown
        rw [← hown, ← hslash, ← List.concat_eq_append, ← hbytes]
      rw [if_pos hends, hbase, ← steps_append, hbytes, hslash, List.concat_eq_append,
        List.append_assoc]
      rfl
    · have hends : (base.bytes.isEmpty || base.bytes.getLast? == some slash) = false := by
        simp [hbytes, hslash]
      rw [hends]
      exact steps_append base.bytes child.bytes

theorem isAbsolute_join (base : Path) {child : Path} (hchild : child.isAbsolute = false) :
    (base / child).isAbsolute = base.isAbsolute := by
  show (join base child).isAbsolute = _
  rw [join, hchild]
  cases hbytes : base.bytes with
  | nil => simpa [isAbsolute, hbytes] using hchild
  | cons first rest =>
    simp only [Bool.false_eq_true, if_false]
    split <;> simp [isAbsolute, hbytes]

/-- A name without a slash is one piece. -/
theorem pieces_name {name : Name} (hslash : slash ∉ name) : pieces ⟨name⟩ = [name] :=
  List.splitOn_eq_singleton hslash

theorem isAbsolute_name {name : Name} (hslash : slash ∉ name) :
    isAbsolute ⟨name⟩ = false := by
  cases name with
  | nil => rfl
  | cons first rest =>
    have hfirst : first ≠ slash := fun h => hslash (h ▸ List.mem_cons_self)
    simpa [isAbsolute] using hfirst

/-- A name below a directory is a piece after those of the directory, or after all but an empty
one at their end. -/
theorem pieces_join {base : Path} (hbase : base.bytes ≠ []) {name : Name} (hslash : slash ∉ name) :
    ∃ before, (base / (⟨name⟩ : Path)).pieces = before ++ [name] ∧
      before.filter (fun name => !FileSystem.isIdle name) = base.steps ∧
      before.head? = base.pieces.head? ∧
      (base.pieces = before ∨ base.pieces = before ++ [[]]) := by
  have hchild : isAbsolute ⟨name⟩ = false := isAbsolute_name hslash
  have hjoin := join_eq base hchild
  have hsplit : ∀ before : List UInt8, (before ++ slash :: name).splitOn slash =
      before.splitOn slash ++ [name] := by
    intro before
    rw [List.splitOn_append_cons_self, List.splitOn_eq_singleton hslash]
  rcases List.eq_nil_or_concat base.bytes with hempty | ⟨before, final, hbytes⟩
  · exact absurd hempty hbase
  rw [List.concat_eq_append] at hbytes
  by_cases hfinal : final = slash
  · have hends : (base.bytes.isEmpty || base.bytes.getLast? == some slash) = true := by
      simp [hbytes, hfinal]
    have hpieces : base.pieces = before.splitOn slash ++ [[]] := by
      rw [pieces, hbytes, hfinal, List.splitOn_append_cons_self]
      rfl
    refine ⟨before.splitOn slash, ?_, ?_, ?_, .inr hpieces⟩
    · rw [hjoin, if_pos hends, pieces, hbytes, hfinal, List.append_assoc]
      exact hsplit before
    · rw [steps, hpieces, List.filter_append]
      simp [FileSystem.isIdle]
    · rw [hpieces, List.head?_append]
      cases hhead : before.splitOn slash with
      | nil => exact absurd hhead (List.splitOn_ne_nil _ _)
      | cons first rest => rfl
  · have hends : (base.bytes.isEmpty || base.bytes.getLast? == some slash) = false := by
      simp [hbytes, hfinal]
    refine ⟨base.pieces, ?_, rfl, rfl, .inl rfl⟩
    rw [hjoin, hends]
    exact hsplit base.bytes

end Path

namespace FileSystem

variable {fs : FileSystem} {last : LastName} {links : Nat} {here loc : Location}
  {names names' : List Name}

/-! ## Walks to something that is there -/

/-- Following at most so many links, the walk from `here` along names leads to what is at `loc`. -/
inductive Follows (fs : FileSystem) : Nat → Location → List Name → Location → Prop where
  | done {links : Nat} {here : Location} : Follows fs links here [] here
  | idle {links : Nat} {here : Location} {name : Name} {rest : List Name} {loc : Location}
      (hopen : fs.Opens here name) (hidle : isIdle name = true)
      (hrest : Follows fs links here rest loc) : Follows fs links here (name :: rest) loc
  | up {links : Nat} {here : Location} {name : Name} {rest : List Name} {loc : Location}
      (hopen : fs.Opens here name) (hidle : isIdle name = false)
      (hup : isUp name = true) (hrest : Follows fs links here.tail rest loc) :
      Follows fs links here (name :: rest) loc
  | jump {links : Nat} {here : Location} {name : Name} {rest : List Name} {target : Path}
      {loc : Location} (hopen : fs.Opens here name) (hname : IsEntry name)
      (hlength : name.length ≤ maxName) (hlink : fs.node? (name :: here) = some (.symlink target))
      (hrest : Follows fs links (origin here target) (target.pieces ++ rest) loc) :
      Follows fs (links + 1) here (name :: rest) loc
  | enter {links : Nat} {here : Location} {name : Name} {rest : List Name} {node : Node}
      {loc : Location} (hopen : fs.Opens here name) (hname : IsEntry name)
      (hlength : name.length ≤ maxName) (hnode : fs.node? (name :: here) = some node)
      (hplain : ∀ target, node ≠ .symlink target)
      (hrest : Follows fs links (name :: here) rest loc) : Follows fs links here (name :: rest) loc

/-- A walk that makes nothing, and does not end at a link that it was not to follow. -/
theorem follows_of_walkNames (hcreate : last.create = false)
    (hend : last.follow = false → ∀ target, fs.node? loc ≠ some (.symlink target))
    {jump : Location → List Name → Except Errno Location}
    (hjump : ∀ here names, jump here names = .ok loc →
      ∃ fewer, links = fewer + 1 ∧ Follows fs fewer here names loc) :
    ∀ names here, fs.walkNames last jump here names = .ok loc →
      Follows fs links here names loc := by
  intro names
  induction names with
  | nil =>
    intro here h
    rw [walkNames] at h
    cases h
    exact .done
  | cons name rest ih =>
    intro here h
    have hopen := opens_of_walkNames h
    cases firstMove_of_walkNames h with
    | idle hidle hrest => exact .idle hopen hidle (ih here hrest)
    | up hidle hup hrest => exact .up hopen hidle hup (ih here.tail hrest)
    | make _ _ _ hmake => simp [hcreate] at hmake
    | stay _ _ hlink hfollow => exact absurd hlink (hend hfollow _)
    | jump hname hlength hlink _ hrest =>
      rcases hjump _ _ hrest with ⟨fewer, rfl, hfollows⟩
      exact .jump hopen hname hlength hlink hfollows
    | enter hname hlength hnode hplain hrest =>
      exact .enter hopen hname hlength hnode hplain (ih (name :: here) hrest)

theorem follows_of_walk (hcreate : last.create = false)
    (hend : last.follow = false → ∀ target, fs.node? loc ≠ some (.symlink target)) :
    ∀ links here names, fs.walk last links here names = .ok loc →
      Follows fs links here names loc := by
  intro links
  induction links with
  | zero => exact fun here names h => follows_of_walkNames hcreate hend (by simp) names here h
  | succ links ih =>
    intro here names h
    exact follows_of_walkNames hcreate hend
      (fun here names hjump => ⟨links, rfl, ih here names hjump⟩) names here h

/-- Whatever links are left, a walk goes along names until it jumps. -/
theorem exists_walkNames (fs : FileSystem) (last : LastName) (links : Nat) :
    ∃ jump, fs.walk last links = fs.walkNames last jump := by
  cases links with
  | zero => exact ⟨_, rfl⟩
  | succ links => exact ⟨_, rfl⟩

section

variable {name : Name} {rest : List Name}

theorem walk_idle (hopen : fs.Opens here name) (hidle : isIdle name = true) :
    fs.walk last links here (name :: rest) = fs.walk last links here rest := by
  rcases exists_walkNames fs last links with ⟨jump, hjump⟩
  rw [hjump, walkNames_idle hopen hidle]

theorem walk_up (hopen : fs.Opens here name) (hidle : isIdle name = false)
    (hup : isUp name = true) :
    fs.walk last links here (name :: rest) = fs.walk last links here.tail rest := by
  rcases exists_walkNames fs last links with ⟨jump, hjump⟩
  rw [hjump, walkNames_up hopen hidle hup]

theorem walk_enter {node : Node} (hopen : fs.Opens here name) (hname : IsEntry name)
    (hlength : name.length ≤ maxName) (hnode : fs.node? (name :: here) = some node)
    (hplain : ∀ target, node ≠ .symlink target) :
    fs.walk last links here (name :: rest) = fs.walk last links (name :: here) rest := by
  rcases exists_walkNames fs last links with ⟨jump, hjump⟩
  rw [hjump, walkNames_enter hopen hname hlength hnode hplain]

end

/-- Such a walk is found, however the last name is treated; a link is where it may end early. -/
theorem Follows.walk (h : Follows fs links here names loc) (last : LastName) :
    ∃ found, fs.walk last links here names = .ok found ∧ (last.follow = true → found = loc) := by
  induction h with
  | @done links here =>
    rcases exists_walkNames fs last links with ⟨jump, hjump⟩
    exact ⟨here, by rw [hjump, walkNames], fun _ => rfl⟩
  | idle hopen hidle _ ih => rwa [walk_idle hopen hidle]
  | up hopen hidle hup _ ih => rwa [walk_up hopen hidle hup]
  | @jump links here name rest target loc hopen hname hlength hlink _ ih =>
    rw [FileSystem.walk, walkNames_link hopen hname hlength hlink]
    split
    · rename_i hstay
      refine ⟨name :: here, rfl, fun hfollow => ?_⟩
      simp [hfollow] at hstay
    · exact ih
  | enter hopen hname hlength hnode hplain _ ih =>
    rwa [walk_enter hopen hname hlength hnode hplain]

/-- What comes after such a walk is walked from where it led to. -/
theorem Follows.walk_append (h : Follows fs links here names loc) (last : LastName)
    {rest : List Name} (hrest : rest ≠ []) :
    ∃ left, fs.walk last links here (names ++ rest) = fs.walk last left loc rest := by
  induction h with
  | @done links here => exact ⟨links, rfl⟩
  | idle hopen hidle _ ih => rwa [List.cons_append, walk_idle hopen hidle]
  | up hopen hidle hup _ ih => rwa [List.cons_append, walk_up hopen hidle hup]
  | @jump links here name names target loc hopen hname hlength hlink _ ih =>
    -- something is left to walk, so the link is followed
    have hmore : (names ++ rest).isEmpty = false := by simp [hrest]
    rw [List.append_assoc] at ih
    rwa [List.cons_append, FileSystem.walk, walkNames_link hopen hname hlength hlink, hmore]
  | enter hopen hname hlength hnode hplain _ ih =>
    rwa [List.cons_append, walk_enter hopen hname hlength hnode hplain]

/-- After such a walk a name leads to what stands under it, or to where it can be made. -/
theorem Follows.entry_of_walk {last : LastName} {name : Name} {place : Location}
    (h : Follows fs links here names loc) (hname : IsEntry name)
    (hplain : ∀ target, fs.node? (name :: loc) ≠ some (.symlink target))
    (hwalk : fs.walk last links here (names ++ [name]) = .ok place) : place = name :: loc := by
  rcases h.walk_append last (List.cons_ne_nil name []) with ⟨left, hleft⟩
  rcases exists_walkNames fs last left with ⟨jump, hjump⟩
  rw [hleft, hjump] at hwalk
  cases firstMove_of_walkNames hwalk with
  | idle hidle _ => simp [hname.1] at hidle
  | up _ hup _ => simp [hname.2] at hup
  | make _ _ _ _ => rfl
  | stay _ _ _ _ => rfl
  | jump _ _ hlink _ _ => exact absurd hlink (hplain _)
  | enter _ _ _ _ hrest =>
    rw [walkNames] at hrest
    cases hrest
    rfl

/-! ## Names that say nothing -/

/-- The second list is the first without some names that say nothing; none in front of an empty
name, and none at its end, unless so said. -/
inductive Thins (atEnd : Bool) : List Name → List Name → Prop where
  | nil : Thins atEnd [] []
  | keep {names names' : List Name} (name : Name) (hrest : Thins atEnd names names') :
      Thins atEnd (name :: names) (name :: names')
  | drop {name : Name} {names names' : List Name} (hidle : isIdle name = true)
      (hmore : names' = [] → atEnd = true) (hnext : names'.head? ≠ some [])
      (hrest : Thins atEnd names names') : Thins atEnd (name :: names) names'

namespace Thins

variable {atEnd : Bool}

theorem append (h : Thins atEnd names names') (before : List Name) :
    Thins atEnd (before ++ names) (before ++ names') := by
  induction before with
  | nil => exact h
  | cons name _ ih => exact .keep name ih

/-- Of names that say something none is empty. -/
theorem head?_filter_ne (names : List Name) :
    (names.filter fun name => !isIdle name).head? ≠ some [] := by
  intro hhead
  have hmem := List.mem_of_head? hhead
  simp [isIdle] at hmem

theorem filter (names : List Name) : Thins true names (names.filter fun name => !isIdle name) := by
  induction names with
  | nil => exact .nil
  | cons name rest ih =>
    cases hidle : isIdle name with
    | true => simpa [hidle] using Thins.drop hidle (fun _ => rfl) (head?_filter_ne rest) ih
    | false => simpa [hidle] using Thins.keep name ih

/-- Before a last name none is at the end. -/
theorem filter_before (names : List Name) {last : Name} (hlast : last ≠ []) :
    Thins false (names ++ [last]) ((names.filter fun name => !isIdle name) ++ [last]) := by
  induction names with
  | nil => exact .keep last .nil
  | cons name rest ih =>
    cases hidle : isIdle name with
    | true =>
      have hnext : ((rest.filter fun name => !isIdle name) ++ [last]).head? ≠ some [] := by
        cases hfilter : (rest.filter fun name => !isIdle name) with
        | nil => simpa using hlast
        | cons first others => simpa [hfilter] using head?_filter_ne rest
      simpa [hidle] using Thins.drop hidle (by simp) hnext ih
    | false => simpa [hidle] using Thins.keep name ih

/-- The empty name after a slash at the end says nothing. -/
theorem slash_at_end (names : List Name) : Thins true (names ++ [[]]) names := by
  induction names with
  | nil => exact .drop rfl (fun _ => rfl) (by simp) .nil
  | cons name _ ih => exact .keep name ih

theorem nil_right (h : Thins atEnd names []) :
    (∀ name ∈ names, isIdle name = true) ∧ (names = [] ∨ atEnd = true) := by
  generalize hempty : ([] : List Name) = empty at h
  induction h with
  | nil => exact ⟨by simp, .inl rfl⟩
  | keep => cases hempty
  | drop hidle hmore _ _ ih =>
    exact ⟨List.forall_mem_cons.2 ⟨hidle, (ih hempty).1⟩, .inr (hmore hempty.symm)⟩

theorem cons_right {name : Name} {rest' : List Name} (h : Thins atEnd names (name :: rest')) :
    ∃ before rest, names = before ++ name :: rest ∧ (∀ name ∈ before, isIdle name = true) ∧
      (name = [] → before = []) ∧ Thins atEnd rest rest' := by
  generalize hall : name :: rest' = all at h
  induction h with
  | nil => cases hall
  | @keep rest _ first hrest =>
    cases hall
    exact ⟨[], rest, rfl, by simp, fun _ => rfl, hrest⟩
  | @drop first _ _ hidle _ hnext _ ih =>
    subst hall
    rcases ih rfl with ⟨before, rest, rfl, hbefore, _, hrest⟩
    have hname : name ≠ [] := by simpa using hnext
    exact ⟨first :: before, rest, rfl, List.forall_mem_cons.2 ⟨hidle, hbefore⟩,
      fun hnil => absurd hnil hname, hrest⟩

end Thins

section

variable {atEnd : Bool}

/-- Names that say nothing can be left out of a walk. -/
theorem Follows.thin (h : Follows fs links here names loc) (hthin : Thins atEnd names names') :
    Follows fs links here names' loc := by
  induction h generalizing names' with
  | done =>
    cases hthin
    exact .done
  | idle hopen hidle _ ih =>
    cases hthin with
    | keep _ hrest => exact .idle hopen hidle (ih hrest)
    | drop _ _ _ hrest => exact ih hrest
  | up hopen hidle hup _ ih =>
    cases hthin with
    | keep _ hrest => exact .up hopen hidle hup (ih hrest)
    | drop hdrop _ _ _ => simp [hdrop] at hidle
  | jump hopen hname hlength hlink _ ih =>
    cases hthin with
    | keep _ hrest => exact .jump hopen hname hlength hlink (ih (hrest.append _))
    | drop hdrop _ _ _ => simp [hdrop, IsEntry] at hname
  | enter hopen hname hlength hnode hplain _ ih =>
    cases hthin with
    | keep _ hrest => exact .enter hopen hname hlength hnode hplain (ih hrest)
    | drop hdrop _ _ _ => simp [hdrop, IsEntry] at hname

/-- In a directory that can be searched any number of them can come first. -/
theorem Follows.after_idle (h : Follows fs links here names loc) {before : List Name}
    (hopen : before = [] ∨ Searchable fs here) (hidle : ∀ name ∈ before, isIdle name = true) :
    Follows fs links here (before ++ names) loc := by
  induction before with
  | nil => exact h
  | cons name rest ih =>
    rcases List.forall_mem_cons.1 hidle with ⟨hname, hrest⟩
    have hsearch : Searchable fs here := hopen.resolve_left (List.cons_ne_nil name rest)
    exact .idle (hsearch.opens name) hname (ih (.inr hsearch) hrest)

/-- They can be put in, at the end only after a directory that can be searched. -/
theorem Follows.thicken (h : Follows fs links here names' loc)
    (hend : atEnd = true → Searchable fs loc) (hthin : Thins atEnd names names') :
    Follows fs links here names loc := by
  -- what comes before a name that is looked up needs no more than that name
  have hbefore : ∀ {here name before}, fs.Opens here name → (name = [] → before = []) →
      (before : List Name) = [] ∨ Searchable fs here := by
    intro here name before hopen hnone
    by_cases hname : name = []
    · exact .inl (hnone hname)
    · exact .inr (hopen.searchable hname)
  induction h generalizing names with
  | done =>
    rcases hthin.nil_right with ⟨hidle, rfl | hatEnd⟩
    · exact .done
    · simpa using Follows.done.after_idle (.inr (hend hatEnd)) hidle
  | idle hopen hidle _ ih =>
    rcases hthin.cons_right with ⟨before, rest, rfl, hall, hnone, hrest⟩
    exact (Follows.idle hopen hidle (ih hend hrest)).after_idle (hbefore hopen hnone) hall
  | up hopen hidle hup _ ih =>
    rcases hthin.cons_right with ⟨before, rest, rfl, hall, hnone, hrest⟩
    exact (Follows.up hopen hidle hup (ih hend hrest)).after_idle (hbefore hopen hnone) hall
  | jump hopen hname hlength hlink _ ih =>
    rcases hthin.cons_right with ⟨before, rest, rfl, hall, hnone, hrest⟩
    exact (Follows.jump hopen hname hlength hlink (ih hend (hrest.append _))).after_idle
      (hbefore hopen hnone) hall
  | enter hopen hname hlength hnode hplain _ ih =>
    rcases hthin.cons_right with ⟨before, rest, rfl, hall, hnone, hrest⟩
    exact (Follows.enter hopen hname hlength hnode hplain (ih hend hrest)).after_idle
      (hbefore hopen hnone) hall

end

/-! ## Walks past a name -/

/-- A walk past a name passes through a directory in which the name is looked up. -/
theorem Follows.split {name : Name} (h : Follows fs links here (names ++ [name]) loc) :
    ∃ dir, Follows fs links here names dir ∧ fs.Opens dir name ∧
      (isIdle name = true ∧ loc = dir ∨ isUp name = true ∨
        ∃ node, fs.node? (name :: dir) = some node) := by
  generalize hall : names ++ [name] = all at h
  induction h generalizing names with
  | done => simp at hall
  | @idle links here _ _ _ hopen hidle hrest ih =>
    cases names with
    | nil =>
      cases hall
      cases hrest
      exact ⟨here, .done, hopen, .inl ⟨hidle, rfl⟩⟩
    | cons first rest =>
      cases hall
      rcases ih rfl with ⟨dir, hfollows, hrest⟩
      exact ⟨dir, .idle hopen hidle hfollows, hrest⟩
  | @up links here _ _ _ hopen hfirst hup _ ih =>
    cases names with
    | nil =>
      cases hall
      exact ⟨here, .done, hopen, .inr (.inl hup)⟩
    | cons first rest =>
      cases hall
      rcases ih rfl with ⟨dir, hfollows, hrest⟩
      exact ⟨dir, .up hopen hfirst hup hfollows, hrest⟩
  | @jump links here _ _ target _ hopen hname hlength hlink _ ih =>
    cases names with
    | nil =>
      cases hall
      exact ⟨here, .done, hopen, .inr (.inr ⟨_, hlink⟩)⟩
    | cons first rest =>
      cases hall
      -- the name is still the last one after the names of the link
      rcases ih (List.append_assoc _ _ _) with ⟨dir, hfollows, hrest⟩
      exact ⟨dir, .jump hopen hname hlength hlink hfollows, hrest⟩
  | @enter links here _ _ node _ hopen hname hlength hnode hplain _ ih =>
    cases names with
    | nil =>
      cases hall
      exact ⟨here, .done, hopen, .inr (.inr ⟨node, hnode⟩)⟩
    | cons first rest =>
      cases hall
      rcases ih rfl with ⟨dir, hfollows, hrest⟩
      exact ⟨dir, .enter hopen hname hlength hnode hplain hfollows, hrest⟩

/-- After a walk to a directory, the slash at the end says nothing. -/
theorem Follows.slash_at_end (h : Follows fs links here names loc)
    (hdir : fs.node? loc = some .directory) : Follows fs links here (names ++ [[]]) loc := by
  induction h with
  | done => exact .idle (opens_nil hdir) rfl .done
  | idle hopen hidle _ ih => exact .idle hopen hidle (ih hdir)
  | up hopen hidle hup _ ih => exact .up hopen hidle hup (ih hdir)
  | jump hopen hname hlength hlink _ ih =>
    have hrest := ih hdir
    rw [List.append_assoc] at hrest
    exact .jump hopen hname hlength hlink hrest
  | enter hopen hname hlength hnode hplain _ ih =>
    exact .enter hopen hname hlength hnode hplain (ih hdir)

/-- A walk whose last name is `..` or says nothing ends in a directory. -/
theorem Follows.directory {name : Name} (hname : isIdle name = true ∨ isUp name = true)
    (h : Follows fs links here (names ++ [name]) loc) : fs.node? loc = some .directory := by
  generalize hall : names ++ [name] = all at h
  induction h generalizing names with
  | done => simp at hall
  | idle hopen hidle hrest ih =>
    cases names with
    | nil =>
      cases hall
      cases hrest
      exact hopen.directory
    | cons first rest =>
      cases hall
      exact ih rfl
  | up hopen hidle hup hrest ih =>
    cases names with
    | nil =>
      cases hall
      cases hrest
      exact node?_tail hopen.directory
    | cons first rest =>
      cases hall
      exact ih rfl
  | jump hopen hentry hlength hlink hrest ih =>
    cases names with
    | nil =>
      cases hall
      simp [hentry.1, hentry.2] at hname
    | cons first rest =>
      cases hall
      exact ih (List.append_assoc _ _ _)
  | enter hopen hentry hlength hnode hplain hrest ih =>
    cases names with
    | nil =>
      cases hall
      simp [hentry.1, hentry.2] at hname
    | cons first rest =>
      cases hall
      exact ih rfl

/-! ## Paths -/

/-- The path can be looked up at all. -/
def Fits (p : Path) : Prop :=
  p.bytes.contains 0 = false ∧ p.bytes ≠ [] ∧ p.bytes.length < maxPath

/-- What spells less than a path that can be looked up can be looked up, if it spells anything. -/
theorem fits_of_sublist {p q : Path} (h : p.bytes.Sublist q.bytes) (hp : p.bytes ≠ [])
    (hq : Fits q) : Fits p := by
  rcases hq with ⟨hzero, _, hlength⟩
  have hzero : (0 : UInt8) ∉ q.bytes := by simpa using hzero
  refine ⟨by simpa using fun hmem => hzero (h.subset hmem), hp, ?_⟩
  exact Nat.lt_of_le_of_lt h.length_le hlength

/-- The paths start at the same place and have the same steps. -/
def SameWay (p q : Path) : Prop := p.isAbsolute = q.isAbsolute ∧ p.steps = q.steps

theorem resolve_iff {p : Path} :
    fs.resolve .target p = .ok loc ↔
      Fits p ∧ Follows fs maxLinks (origin fs.cwd p) p.pieces loc := by
  constructor
  · intro h
    rcases walk_of_resolve h with ⟨hzero, hempty, hlength, hwalk⟩
    have hfollows := follows_of_walk rfl (fun hfollow => by cases hfollow) _ _ _ hwalk
    exact ⟨⟨hzero, hempty, Nat.not_le.1 hlength⟩, hfollows⟩
  · rintro ⟨⟨hzero, hempty, hlength⟩, hfollows⟩
    rcases hfollows.walk .target with ⟨found, hwalk, hsame⟩
    unfold resolve
    rw [if_neg (by simpa using hzero), if_neg hempty, if_neg (Nat.not_le.2 hlength), hwalk,
      hsame rfl]

theorem isPresent_of_resolve {p : Path} (h : fs.resolve .target p = .ok loc) :
    fs.isPresent p = true := by
  rcases resolve_iff.1 h with ⟨⟨hzero, hempty, hlength⟩, hfollows⟩
  rcases hfollows.walk .itself with ⟨found, hwalk, _⟩
  have hresolve : fs.resolve .itself p = .ok found := by
    unfold resolve
    rw [if_neg (by simpa using hzero), if_neg hempty, if_neg (Nat.not_le.2 hlength), hwalk]
  rw [isPresent, hresolve]
  rfl

theorem origin_of_sameWay {p q : Path} (h : p.isAbsolute = q.isAbsolute) (here : Location) :
    origin here p = origin here q := by
  rw [origin, origin, h]

/-- Paths with the same steps lead to the same directory. -/
theorem resolve_of_sameWay {p q : Path} (h : fs.resolve .target p = .ok loc)
    (hopen : Searchable fs loc) (hsame : SameWay p q) (hfits : Fits q) :
    fs.resolve .target q = .ok loc := by
  rcases resolve_iff.1 h with ⟨_, hfollows⟩
  have hsteps : Follows fs maxLinks (origin fs.cwd p) p.steps loc :=
    hfollows.thin (.filter p.pieces)
  rw [hsame.2, origin_of_sameWay hsame.1] at hsteps
  exact resolve_iff.2 ⟨hfits, hsteps.thicken (fun _ => hopen) (.filter q.pieces)⟩

/-- Paths with the same last name after the same steps lead to the same place. -/
theorem resolve_of_sameEnd {p q : Path} {before before' : List Name} {name : Name}
    (h : fs.resolve .target p = .ok loc) (habsolute : p.isAbsolute = q.isAbsolute)
    (hp : p.pieces = before ++ [name]) (hq : q.pieces = before' ++ [name])
    (hsteps : (before.filter fun name => !isIdle name) = before'.filter fun name => !isIdle name)
    (hname : name ≠ []) (hfits : Fits q) : fs.resolve .target q = .ok loc := by
  rcases resolve_iff.1 h with ⟨_, hfollows⟩
  rw [hp] at hfollows
  have hthin := hfollows.thin (.filter_before before hname)
  rw [hsteps, origin_of_sameWay habsolute] at hthin
  have hthick : Follows fs maxLinks (origin fs.cwd q) (before' ++ [name]) loc := by
    apply hthin.thicken _ (Thins.filter_before before' hname)
    nofun
  rw [← hq] at hthick
  exact resolve_iff.2 ⟨hfits, hthick⟩

/-- What has one more step is below a directory, unless that step leads up. -/
theorem resolve_parent {p q : Path} {name : Name} (h : fs.resolve .target q = .ok loc)
    (habsolute : q.isAbsolute = p.isAbsolute) (hsteps : q.steps = p.steps ++ [name])
    (hidle : isIdle name = false) (hfits : Fits p) :
    ∃ dir, fs.resolve .target p = .ok dir ∧ Searchable fs dir ∧
      (isUp name = true ∨ ∃ node, fs.node? (name :: dir) = some node) := by
  rcases resolve_iff.1 h with ⟨_, hfollows⟩
  have hthin : Follows fs maxLinks (origin fs.cwd q) q.steps loc :=
    hfollows.thin (.filter q.pieces)
  rw [hsteps, origin_of_sameWay habsolute] at hthin
  rcases hthin.split with ⟨dir, hparent, hopen, hchild⟩
  have hsearch : Searchable fs dir := hopen.searchable (ne_nil_of_not_idle hidle)
  have hpieces := hparent.thicken (fun _ => hsearch) (.filter p.pieces)
  exact ⟨dir, resolve_iff.2 ⟨hfits, hpieces⟩, hsearch, hchild.resolve_left (by simp [hidle])⟩

/-- What stands under a name in a directory, if it is no link, is where the name's path leads. -/
theorem resolve_entry {p q : Path} {name : Name} {dir : Location}
    (hp : fs.resolve .target p = .ok dir) (hq : fs.resolve .target q = .ok loc)
    (habsolute : q.isAbsolute = p.isAbsolute) (hsteps : q.steps = p.steps ++ [name])
    (hname : IsEntry name) (hplain : ∀ target, fs.node? (name :: dir) ≠ some (.symlink target)) :
    loc = name :: dir := by
  have hdir : Follows fs maxLinks (origin fs.cwd p) p.steps dir :=
    (resolve_iff.1 hp).2.thin (.filter p.pieces)
  have hloc : Follows fs maxLinks (origin fs.cwd q) q.steps loc :=
    (resolve_iff.1 hq).2.thin (.filter q.pieces)
  rw [hsteps, origin_of_sameWay habsolute] at hloc
  rcases hloc.walk .target with ⟨found, hwalk, hsame⟩
  rw [hsame rfl] at hwalk
  exact hdir.entry_of_walk hname hplain hwalk

/-- The path of a directory can be told from a name below it. -/
theorem resolve_of_join {p : Path} {name : Name} (hsome : p.bytes ≠ []) (hslash : Path.slash ∉ name)
    (h : fs.resolve .target (p / (⟨name⟩ : Path)) = .ok loc) (hfits : Fits p) :
    ∃ dir, fs.resolve .target p = .ok dir ∧ fs.Opens dir name ∧
      (isIdle name = true ∧ loc = dir ∨ isUp name = true ∨
        ∃ node, fs.node? (name :: dir) = some node) := by
  rcases Path.pieces_join hsome hslash with ⟨before, hpieces, _, _, hown⟩
  have hfollows := (resolve_iff.1 h).2
  rw [hpieces, origin_of_sameWay (Path.isAbsolute_join p (Path.isAbsolute_name hslash))] at hfollows
  rcases hfollows.split with ⟨dir, hparent, hopen, hchild⟩
  have hdir : Follows fs maxLinks (origin fs.cwd p) p.pieces dir := by
    rcases hown with hown | hown
    · rwa [hown]
    · rw [hown]
      exact hparent.slash_at_end hopen.directory
  exact ⟨dir, resolve_iff.2 ⟨hfits, hdir⟩, hopen, hchild⟩

/-! ## Listings -/

theorem nameIn?_iff {name : Name} {dir here : Location} :
    nameIn? dir here = some name ↔ here = name :: dir := by
  cases here with
  | nil => simp [nameIn?]
  | cons first parent =>
    by_cases hparent : parent = dir <;> simp [nameIn?, hparent]

/-- The names in a directory are those that something stands under. -/
theorem mem_names_iff {name : Name} {dir : Location} :
    name ∈ fs.names dir ↔ ∃ node, fs.node? (name :: dir) = some node := by
  constructor
  · intro h
    rcases List.mem_filterMap.1 h with ⟨⟨loc, node⟩, hmem, hname⟩
    cases nameIn?_iff.1 hname
    exact ⟨node, (mem_nodes_iff (List.cons_ne_nil _ _)).1 hmem⟩
  · rintro ⟨node, hnode⟩
    have hmem := (mem_nodes_iff (List.cons_ne_nil name dir)).2 hnode
    exact List.mem_filterMap.2 ⟨_, hmem, nameIn?_iff.2 rfl⟩

/-- No name is in a directory twice. -/
theorem nodup_names (fs : FileSystem) (dir : Location) : (fs.names dir).Nodup := by
  have hplaces : fs.nodes.Pairwise fun entry other => entry.1 ≠ other.1 :=
    List.pairwise_map.1 fs.distinct
  refine hplaces.filterMap _ ?_
  intro entry other hne name hname name' hname' heq
  subst heq
  exact hne ((nameIn?_iff.1 hname).trans (nameIn?_iff.1 hname').symm)

/-- A directory is opened where the path leads to one and the system lets it be listed. -/
theorem openDirectory_eq_ok_iff {p : Path} :
    fs.openDirectory p = .ok loc ↔ fs.resolve .target p = .ok loc ∧
      fs.node? loc = some .directory ∧ fs.refusal loc .read = none := by
  cases hresolve : fs.resolve .target p with
  | error fault => simp [openDirectory, hresolve, bind, Except.bind]
  | ok dir =>
    by_cases hdir : fs.node? dir = some .directory
    · simp only [openDirectory, hresolve, hdir, if_true, bind, Except.bind, Except.ok.injEq]
      constructor
      · intro h
        rcases permit_of_bind h with ⟨hread, h⟩
        cases h
        exact ⟨rfl, hdir, hread⟩
      · rintro ⟨rfl, -, hread⟩
        rw [permit_eq_ok_iff.2 hread]
        rfl
    · have hnone : ¬(dir = loc ∧ fs.node? loc = some .directory ∧ fs.refusal loc .read = none) := by
        rintro ⟨rfl, h, -⟩
        exact hdir h
      simp [openDirectory, hresolve, hdir, hnone, bind, Except.bind, throw, throwThe,
        MonadExceptOf.throw]

/-- If there is a directory where the path leads, it can be listed. -/
def Listable (fs : FileSystem) (p : Path) : Prop :=
  ∀ loc, fs.resolve .target p = .ok loc → fs.node? loc = some .directory →
    fs.refusal loc .read = none

theorem nodup_namesAt (fs : FileSystem) (p : Path) : (fs.namesAt p).Nodup := by
  rw [namesAt]
  split
  · exact nodup_names fs _
  · exact List.nodup_nil

theorem isProperName_of_mem_namesAt {p : Path} {name : Name} (h : name ∈ fs.namesAt p) :
    isProperName name = true := by
  rw [namesAt] at h
  split at h
  · rcases mem_names_iff.1 h with ⟨node, hnode⟩
    exact (parent_of_node? hnode).1
  · cases h

theorem isDirectory_iff {p : Path} :
    fs.isDirectory p = true ↔
      ∃ dir, fs.resolve .target p = .ok dir ∧ fs.node? dir = some .directory := by
  cases hresolve : fs.resolve .target p with
  | error fault => simp [isDirectory, stat, hresolve, bind, Except.bind]
  | ok dir =>
    cases hnode : fs.node? dir with
    | none =>
      simp [isDirectory, stat, hresolve, hnode, bind, Except.bind, throw, throwThe,
        MonadExceptOf.throw]
    | some node =>
      cases node <;> simp [isDirectory, stat, hresolve, hnode, bind, Except.bind, pure, Except.pure]

theorem stat_of_isDirectory {p : Path} (h : fs.isDirectory p = true) :
    fs.stat p = .ok .directory := by
  unfold isDirectory at h
  split at h
  · assumption
  · cases h

theorem namesAt_of_resolve {p : Path} {dir : Location} (h : fs.resolve .target p = .ok dir)
    (hdir : fs.node? dir = some .directory) (hlist : Listable fs p) :
    fs.namesAt p = fs.names dir := by
  rw [namesAt, openDirectory_eq_ok_iff.2 ⟨h, hdir, hlist dir h hdir⟩]

/-- The path leads to a directory that has an entry under the name. -/
def HasEntry (fs : FileSystem) (p : Path) (name : Name) : Prop :=
  ∃ dir, fs.resolve .target p = .ok dir ∧ name ∈ fs.names dir

/-- What can be listed is listed with all its entries. -/
theorem mem_namesAt_iff {p : Path} {name : Name} (hlist : Listable fs p) :
    name ∈ fs.namesAt p ↔ fs.HasEntry p name := by
  constructor
  · intro h
    rw [namesAt] at h
    split at h
    · rename_i dir hopened
      exact ⟨dir, (openDirectory_eq_ok_iff.1 hopened).1, h⟩
    · cases h
  · rintro ⟨dir, hresolve, hname⟩
    rcases mem_names_iff.1 hname with ⟨node, hnode⟩
    rwa [namesAt_of_resolve hresolve (parent_of_node? hnode).2 hlist]

/-- What is found below a directory is one of its entries. -/
theorem hasEntry_of_stat {p q : Path} {name : Name} {node : Node} (h : fs.stat q = .ok node)
    (habsolute : q.isAbsolute = p.isAbsolute) (hsteps : q.steps = p.steps ++ [name])
    (hname : IsEntry name) (hfits : Fits p) : fs.HasEntry p name := by
  rcases resolve_of_stat h with ⟨loc, hresolve, _⟩
  rcases resolve_parent hresolve habsolute hsteps hname.1 hfits with ⟨dir, hparent, _, hchild⟩
  rcases hchild with hup | hnode
  · rw [hname.2] at hup
    cases hup
  · exact ⟨dir, hparent, mem_names_iff.2 hnode⟩

/-! ## Regular files -/

theorem stat_of_isFile {p : Path} (h : fs.isFile p = true) :
    ∃ mode content, fs.stat p = .ok (.file mode content) := by
  unfold isFile at h
  split at h
  · exact ⟨_, _, by assumption⟩
  · cases h

theorem isFile_iff {p : Path} :
    fs.isFile p = true ↔ ∃ loc mode content,
      fs.resolve .target p = .ok loc ∧ fs.node? loc = some (.file mode content) := by
  constructor
  · intro h
    rcases stat_of_isFile h with ⟨mode, content, hstat⟩
    rcases resolve_of_stat hstat with ⟨loc, hresolve, hnode⟩
    exact ⟨loc, mode, content, hresolve, hnode⟩
  · rintro ⟨loc, mode, content, hresolve, hnode⟩
    simp [isFile, stat, hresolve, hnode, bind, Except.bind, pure, Except.pure]

/-- The path of a regular file does not end in a directory's name for itself or its parent. -/
theorem isEntry_of_isFile {p : Path} (h : fs.isFile p = true) {before : List Name} {name : Name}
    (hpieces : p.pieces = before ++ [name]) : IsEntry name := by
  rcases isFile_iff.1 h with ⟨loc, mode, content, hresolve, hnode⟩
  have hfollows := (resolve_iff.1 hresolve).2
  rw [hpieces] at hfollows
  have hentry : ¬(isIdle name = true ∨ isUp name = true) := by
    intro hdots
    rw [hfollows.directory hdots] at hnode
    cases hnode
  simpa [IsEntry] using hentry

/-- Of two spellings with the same end both lead to a regular file or neither does. -/
theorem isFile_of_sameEnd {p q : Path} {before before' : List Name} {name : Name}
    (habsolute : p.isAbsolute = q.isAbsolute) (hp : p.pieces = before ++ [name])
    (hq : q.pieces = before' ++ [name])
    (hsteps : (before.filter fun name => !isIdle name) = before'.filter fun name => !isIdle name)
    (hname : name ≠ []) (hfits : Fits p) (hfits' : Fits q) :
    fs.isFile p = true ↔ fs.isFile q = true := by
  constructor
  · intro h
    rcases isFile_iff.1 h with ⟨loc, mode, content, hresolve, hnode⟩
    have hother := resolve_of_sameEnd hresolve habsolute hp hq hsteps hname hfits'
    exact isFile_iff.2 ⟨loc, mode, content, hother, hnode⟩
  · intro h
    rcases isFile_iff.1 h with ⟨loc, mode, content, hresolve, hnode⟩
    have hother := resolve_of_sameEnd hresolve habsolute.symm hq hp hsteps.symm hname hfits
    exact isFile_iff.2 ⟨loc, mode, content, hother, hnode⟩

end FileSystem
end BootSigning
