import BootSigning.Proofs.Encoding
import BootSigning.Proofs.Escape
import BootSigning.Proofs.Matching
import BootSigning.Proofs.Ways

/-!
# Descent — a glob on its way down a directory

Before a glob comes to its pattern, it walks along the directory that the pattern was laid below,
piece by piece.  It spells that directory in its own way, without the slashes that say nothing.

* `OnWay`: the paths that such a walk comes to;
* `Stands`: a component of a pattern that stands for one name only;
* `expand_descent`: the walk comes to the directory, or nothing can be found in it.
-/

namespace BootSigning

/-! ## Components of a path -/

namespace Path

/-- The component in front of the steps. -/
def front (p : Path) : List Component :=
  if p.isAbsolute then [.root] else if p.pieces.head? = some [dot] then [.here] else []

theorem components_eq (p : Path) :
    p.components = p.front ++ p.steps.map FileSystem.componentOf := by
  have hsteps : p.pieces.filterMap component? = p.steps.map FileSystem.componentOf :=
    FileSystem.components_of_names p.pieces
  rw [components, front, hsteps]
  split
  · rfl
  · split <;> rfl

theorem components_join {base : Path} (hbase : base.bytes ≠ []) {name : Name}
    (hslash : slash ∉ name) :
    (base / (⟨name⟩ : Path)).components =
      base.components ++ (steps ⟨name⟩).map FileSystem.componentOf := by
  have hchild : isAbsolute ⟨name⟩ = false := isAbsolute_name hslash
  rcases pieces_join hbase hslash with ⟨before, hpieces, _, hhead, _⟩
  have hfront : (base / (⟨name⟩ : Path)).front = base.front := by
    have hfirst : (base / (⟨name⟩ : Path)).pieces.head? = base.pieces.head? := by
      rw [hpieces, List.head?_append, hhead]
      cases hbasePieces : base.pieces with
      | nil => exact absurd hbasePieces (FileSystem.pieces_ne_nil base)
      | cons first rest => rfl
    rw [front, front, isAbsolute_join base hchild, hfirst]
  rw [components_eq, components_eq base, hfront, steps_join base hchild, List.map_append,
    List.append_assoc]

theorem steps_name {name : Name} (hslash : slash ∉ name) :
    steps ⟨name⟩ = if FileSystem.isIdle name then [] else [name] := by
  rw [steps, pieces_name hslash]
  cases hidle : FileSystem.isIdle name <;> simp [hidle]

end Path

namespace Glob

open FileSystem (isIdle isUp Fits)

/-! ## Paths on the way -/

/-- A path that a walk can come to. -/
structure Walked (dir : Path) : Prop where
  some : dir.bytes ≠ []
  /-- Where a relative walk starts there is nothing but a dot. -/
  start : isStart dir = true → dir = ⟨[Path.dot]⟩

/-- A path that a walk can come to by names that are text. -/
structure OnWay (dir : Path) : Prop extends Walked dir where
  text : dir.isText = true

theorem isStart_iff {dir : Path} : isStart dir = true ↔ dir.components = [.here] := by
  simp [isStart]

theorem childPath_start {name : Name} : childPath ⟨[Path.dot]⟩ name = ⟨name⟩ := rfl

theorem childPath_of_not_start {dir : Path} {name : Name} (h : isStart dir = false) :
    childPath dir name = dir / (⟨name⟩ : Path) := by
  simp [childPath, h]

section

variable {dir : Path} {name : Name}

/-- No step is the dot that a relative path starts with. -/
theorem componentOf_ne_here (name : Name) : FileSystem.componentOf name ≠ .here := by
  rw [FileSystem.componentOf]
  split <;> simp

theorem name_of_isStart (hslash : Path.slash ∉ name) (h : isStart ⟨name⟩ = true) :
    name = [Path.dot] := by
  by_cases hdot : name = [Path.dot]
  · exact hdot
  · have hfront : Path.front ⟨name⟩ = [] := by
      simp [Path.front, Path.isAbsolute_name hslash, Path.pieces_name hslash, hdot]
    rw [isStart_iff, Path.components_eq, hfront, Path.steps_name hslash, List.nil_append] at h
    split at h
    · cases h
    · have hhere : FileSystem.componentOf name = .here := by simpa using h
      exact absurd hhere (componentOf_ne_here name)

/-- No name below a path leads back to where a relative walk starts. -/
theorem not_isStart_join (hdir : dir.bytes ≠ []) (hslash : Path.slash ∉ name)
    (hstart : isStart dir = false) : isStart (dir / (⟨name⟩ : Path)) = false := by
  cases h : isStart (dir / (⟨name⟩ : Path)) with
  | false => rfl
  | true =>
  exfalso
  rw [isStart_iff, Path.components_join hdir hslash, Path.steps_name hslash] at h
  have hcomponents : dir.components ≠ [.here] := by
    intro hhere
    rw [isStart_iff.2 hhere] at hstart
    cases hstart
  by_cases hidle : isIdle name = true
  · rw [if_pos hidle, List.map_nil, List.append_nil] at h
    exact hcomponents h
  · -- the name would have to be the dot, but it is a step
    rw [if_neg hidle, List.map_singleton] at h
    have hlast := congrArg List.getLast? h
    rw [List.getLast?_concat] at hlast
    have hhere : FileSystem.componentOf name = .here := by simpa using hlast
    exact componentOf_ne_here name hhere

/-- The dot that a relative walk starts from is no step. -/
theorem steps_of_isStart (h : isStart dir = true) : dir.steps = [] := by
  rw [isStart_iff, Path.components_eq] at h
  rcases List.eq_nil_or_concat dir.steps with hnone | ⟨before, final, hsteps⟩
  · exact hnone
  · -- the last step would be the dot
    rw [hsteps, List.concat_eq_append, List.map_append, ← List.append_assoc] at h
    have hlast := congrArg List.getLast? h
    have hhere : FileSystem.componentOf final = .here := by simpa using hlast
    exact absurd hhere (componentOf_ne_here final)

variable (dir) in
theorem steps_child (hslash : Path.slash ∉ name) :
    (childPath dir name).steps = dir.steps ++ Path.steps ⟨name⟩ := by
  cases hstart : isStart dir with
  | true => rw [steps_of_isStart hstart, childPath, if_pos hstart, List.nil_append]
  | false =>
    rw [childPath_of_not_start hstart]
    exact Path.steps_join dir (Path.isAbsolute_name hslash)

theorem isAbsolute_of_isStart (h : isStart dir = true) : dir.isAbsolute = false := by
  rw [isStart_iff, Path.components_eq, Path.front] at h
  cases habsolute : dir.isAbsolute with
  | false => rfl
  | true => simp [habsolute] at h

variable (dir) in
theorem isAbsolute_child (hslash : Path.slash ∉ name) :
    (childPath dir name).isAbsolute = dir.isAbsolute := by
  cases hstart : isStart dir with
  | true =>
    rw [isAbsolute_of_isStart hstart, childPath, if_pos hstart]
    exact Path.isAbsolute_name hslash
  | false =>
    rw [childPath_of_not_start hstart]
    exact Path.isAbsolute_join dir (Path.isAbsolute_name hslash)

theorem pieces_child (h : Walked dir) (hslash : Path.slash ∉ name) :
    ∃ before, (childPath dir name).pieces = before ++ [name] ∧
      before.filter (fun name => !isIdle name) = dir.steps := by
  cases hstart : isStart dir with
  | true =>
    rw [h.start hstart, childPath_start, Path.pieces_name hslash]
    exact ⟨[], rfl, rfl⟩
  | false =>
    rw [childPath_of_not_start hstart]
    rcases Path.pieces_join h.some hslash with ⟨before, hpieces, hsteps, _⟩
    exact ⟨before, hpieces, hsteps⟩

theorem join_bytes (dir : Path) (hslash : Path.slash ∉ name) :
    (dir / (⟨name⟩ : Path)).bytes = dir.bytes ++ name ∨
      (dir / (⟨name⟩ : Path)).bytes = dir.bytes ++ Path.slash :: name := by
  rw [Path.join_eq dir (Path.isAbsolute_name hslash)]
  split
  · exact .inl rfl
  · exact .inr rfl

/-- What is below a path can be looked up only if the path can. -/
theorem fits_of_join (hdir : dir.bytes ≠ []) (hslash : Path.slash ∉ name)
    (h : Fits (dir / (⟨name⟩ : Path))) : Fits dir := by
  refine FileSystem.fits_of_sublist ?_ hdir h
  rcases join_bytes dir hslash with hbytes | hbytes
  · rw [hbytes]
    exact List.sublist_append_left _ _
  · rw [hbytes]
    exact List.sublist_append_left _ _

theorem fits_of_child (h : Walked dir) (hslash : Path.slash ∉ name)
    (hfits : Fits (childPath dir name)) : Fits dir := by
  cases hstart : isStart dir with
  | true =>
    rw [h.start hstart]
    exact ⟨by decide, by decide, by decide⟩
  | false =>
    rw [childPath_of_not_start hstart] at hfits
    exact fits_of_join h.some hslash hfits

theorem isText_append {before after : List UInt8} (hbefore : Path.isText ⟨before⟩ = true)
    (hafter : Path.isText ⟨after⟩ = true) : Path.isText ⟨before ++ after⟩ = true := by
  rcases Path.isText_iff.1 hbefore with ⟨s, hs⟩
  rcases Path.isText_iff.1 hafter with ⟨t, ht⟩
  refine Path.isText_iff.2 ⟨s ++ t, ?_⟩
  have hs : before = Utf8.encode s := congrArg Path.bytes hs
  have ht : after = Utf8.encode t := congrArg Path.bytes ht
  rw [hs, ht, Path.ofString, Utf8.encode, Utf8.encode, Utf8.encode, String.toList_append,
    List.flatMap_append]

theorem isText_join (hdir : dir.isText = true) (hslash : Path.slash ∉ name)
    (htext : Path.isText ⟨name⟩ = true) : (dir / (⟨name⟩ : Path)).isText = true := by
  have hone : Path.isText ⟨[Path.slash]⟩ = true := by decide +kernel
  have hslashed : Path.isText ⟨Path.slash :: name⟩ = true := isText_append hone htext
  rw [Path.join_eq dir (Path.isAbsolute_name hslash)]
  split
  · exact isText_append hdir htext
  · exact isText_append hdir hslashed

theorem isText_child (h : OnWay dir) (hslash : Path.slash ∉ name)
    (htext : Path.isText ⟨name⟩ = true) : (childPath dir name).isText = true := by
  cases hstart : isStart dir with
  | true =>
    rw [h.start hstart, childPath_start]
    exact htext
  | false =>
    rw [childPath_of_not_start hstart]
    exact isText_join h.text hslash htext

/-- A walk goes on from a path it has come to, but from its start by no empty name. -/
theorem Walked.child (h : Walked dir) (hslash : Path.slash ∉ name)
    (hsome : isStart dir = true → name ≠ []) : Walked (childPath dir name) := by
  constructor
  · cases hstart : isStart dir with
    | true =>
      rw [h.start hstart, childPath_start]
      exact hsome hstart
    | false =>
      rw [childPath_of_not_start hstart]
      rcases join_bytes dir hslash with hbytes | hbytes
      · simp [hbytes, h.some]
      · simp [hbytes]
  · intro hchild
    cases hstart : isStart dir with
    | true =>
      -- only a dot leads from the start to the start
      rw [h.start hstart, childPath_start] at hchild ⊢
      rw [name_of_isStart hslash hchild]
    | false =>
      rw [childPath_of_not_start hstart, not_isStart_join h.some hslash hstart] at hchild
      cases hchild

theorem OnWay.child (h : OnWay dir) (hslash : Path.slash ∉ name)
    (htext : Path.isText ⟨name⟩ = true) (hsome : isStart dir = true → name ≠ []) :
    OnWay (childPath dir name) :=
  ⟨h.toWalked.child hslash hsome, isText_child h hslash htext⟩

/-- The path of a directory that a walk has come to can be told from a name below it. -/
theorem resolve_of_child {fs : FileSystem} {loc : Location} (h : Walked dir)
    (hslash : Path.slash ∉ name) (hresolve : fs.resolve .target (childPath dir name) = .ok loc) :
    ∃ parent, fs.resolve .target dir = .ok parent ∧ fs.Opens parent name ∧
      (isIdle name = true ∧ loc = parent ∨ isUp name = true ∨
        ∃ node, fs.node? (name :: parent) = some node) := by
  have hfits : Fits (childPath dir name) := (FileSystem.resolve_iff.1 hresolve).1
  cases hstart : isStart dir with
  | false =>
    have hdir := fits_of_child h hslash hfits
    rw [childPath_of_not_start hstart] at hresolve
    exact FileSystem.resolve_of_join h.some hslash hresolve hdir
  | true =>
    rw [h.start hstart, childPath_start] at hresolve hfits
    have hfollows := (FileSystem.resolve_iff.1 hresolve).2
    rw [Path.pieces_name hslash] at hfollows
    rw [← List.nil_append [name]] at hfollows
    rcases hfollows.split with ⟨parent, hparent, hopen, hchild⟩
    cases hparent
    rw [FileSystem.origin, Path.isAbsolute_name hslash] at hopen hchild
    -- a name is looked up in the directory of the process, so its dot can be too
    have hdot : fs.resolve .target ⟨[Path.dot]⟩ = .ok fs.cwd := by
      have hsearch := hopen.searchable hfits.2.1
      refine FileSystem.resolve_iff.2 ⟨⟨by decide, by decide, by decide⟩, ?_⟩
      exact .idle (hsearch.opens _) rfl .done
    exact ⟨fs.cwd, (h.start hstart) ▸ hdot, hopen, hchild⟩

end

/-! ## Components that stand for one name -/

/-- The bytes of a piece of a pattern. -/
def nameOf (piece : List Char) : Name := Utf8.encode (String.ofList piece)

theorem slash_not_mem_nameOf {piece : List Char} (hslash : '/' ∉ piece) :
    Path.slash ∉ nameOf piece := by
  intro h
  rw [nameOf, Utf8.encode, String.toList_ofList] at h
  rcases List.mem_flatMap.1 h with ⟨c, hc, hbyte⟩
  refine Utf8.slash_not_mem_encodeChar ?_ hbyte
  rintro rfl
  exact hslash hc

theorem text?_nameOf (piece : List Char) : Utf8.text? (nameOf piece) = some (String.ofList piece) :=
  Utf8.text?_eq_some_iff.2 rfl

theorem nameOf_inj {piece other : List Char} (h : nameOf piece = nameOf other) : piece = other := by
  have htext := text?_nameOf piece
  rw [h, text?_nameOf] at htext
  simpa using (congrArg (Option.map String.toList) htext).symm

theorem isEntry_nameOf {piece : List Char} (hsome : piece ≠ []) (hdot : piece ≠ ['.'])
    (hup : piece ≠ ['.', '.']) : FileSystem.IsEntry (nameOf piece) := by
  have hbytes : nameOf [] = [] ∧ nameOf ['.'] = [Path.dot] ∧
      nameOf ['.', '.'] = [Path.dot, Path.dot] := by decide +kernel
  have hempty : nameOf piece ≠ [] := fun h => hsome (nameOf_inj (h.trans hbytes.1.symm))
  have hone : nameOf piece ≠ [Path.dot] := fun h => hdot (nameOf_inj (h.trans hbytes.2.1.symm))
  have htwo : nameOf piece ≠ [Path.dot, Path.dot] :=
    fun h => hup (nameOf_inj (h.trans hbytes.2.2.symm))
  simp [FileSystem.IsEntry, isIdle, isUp, hempty, hone, htwo]

/-- The component of a pattern stands for one name. -/
inductive Stands : List Char → Segment → Prop where
  | literal {piece : List Char} : Stands piece (.literal piece)
  | wild {piece : List Char} {ts : List Token}
      (haccepts : ∀ text, accepts ts text = true ↔ text = piece)
      (hname : FileSystem.IsEntry (nameOf piece)) (hspecial : (escape piece).any isMeta = true) :
      Stands piece (.wild ts)

/-- Components that stand for one name each, in order. -/
inductive StandAll : List (List Char) → List Segment → Prop where
  | nil : StandAll [] []
  | cons {piece : List Char} {segment : Segment} {pieces : List (List Char)}
      {segments : List Segment} (hpiece : Stands piece segment)
      (hrest : StandAll pieces segments) : StandAll (piece :: pieces) (segment :: segments)

theorem escape_cons (c : Char) (rest : List Char) :
    escape (c :: rest) =
      if isMeta c || c == ']' then '[' :: c :: ']' :: escape rest else c :: escape rest := by
  rw [escape, List.flatMap_cons]
  split <;> rfl

/-- An escaped text matches itself alone. -/
theorem matches_escape (piece text : List Char) : Matches (escape piece) text ↔ text = piece := by
  induction piece generalizing text with
  | nil =>
    constructor
    · intro h
      cases h
      rfl
    · rintro rfl
      exact .nil
  | cons c rest ih =>
    rw [escape_cons]
    by_cases hspecial : (isMeta c || c == ']') = true
    · have hnegation : c ≠ '!' := by
        rintro rfl
        cases hspecial
      have hset : ∀ d, InSet d [c] ↔ d = c := by simp [InSet]
      have hmore : ']' ∉ ([] : List Char) := by simp
      rw [if_pos hspecial]
      refine (matches_within hnegation hmore).trans ?_
      simp only [hset, ih]
      constructor
      · rintro ⟨d, others, rfl, rfl, rfl⟩
        rfl
      · rintro rfl
        exact ⟨c, rest, rfl, rfl, rfl⟩
    · have hplain : isMeta c = false := by
        cases hmeta : isMeta c with
        | false => rfl
        | true => simp [hmeta] at hspecial
      rw [if_neg hspecial, matches_char hplain]
      simp only [ih]
      constructor
      · rintro ⟨others, rfl, rfl⟩
        rfl
      · rintro rfl
        exact ⟨rest, rfl, rfl⟩

/-- A text without special characters is its own escape, and only such a text. -/
theorem escape_of_plain {piece : List Char} (h : (escape piece).any isMeta = false) :
    escape piece = piece := by
  induction piece with
  | nil => rfl
  | cons c rest ih =>
    rw [escape_cons] at h ⊢
    split at h
    · simp [isMeta] at h
    · rename_i hspecial
      rw [List.any_cons, Bool.or_eq_false_iff] at h
      rw [if_neg hspecial, ih h.2]

theorem slash_not_mem_escape {piece : List Char} (hslash : '/' ∉ piece) : '/' ∉ escape piece := by
  intro h
  rcases List.mem_flatMap.1 h with ⟨c, hc, hmem⟩
  split at hmem
  · have hslashc : '/' = c := by simpa using hmem
    exact hslash (hslashc ▸ hc)
  · exact hslash (List.mem_singleton.1 hmem ▸ hc)

/-- An escaped piece of a directory stands for the name that it was. -/
theorem stands_escape {piece : List Char} (hslash : '/' ∉ piece) :
    ∃ segment, Segment.compile (escape piece) = .ok segment ∧ Stands piece segment := by
  have hsimple : Simple (escape piece) := simple_escape piece
  have hstars : escape piece ≠ ['*', '*'] := by
    intro hstars
    rw [hstars] at hsimple
    cases hsimple with
    | plain hstar _ _ => exact hstar rfl
  rcases hsimple.compile_isOk with ⟨ts, hts⟩
  have hreads : Reads (escape piece) ts :=
    reads_of_compile hts (slash_not_mem_escape hslash) hstars
  have htree : ts ≠ [.tree] := by
    rintro rfl
    exact hreads.no_tree List.mem_cons_self
  cases hspecial : (escape piece).any isMeta with
  | false =>
    refine ⟨.literal piece, ?_, .literal⟩
    rw [Segment.compile, hts, hspecial, escape_of_plain hspecial]
    simp [bind, Except.bind, htree, pure, Except.pure]
  | true =>
    refine ⟨.wild ts, ?_, .wild ?_ (isEntry_nameOf ?_ ?_ ?_) hspecial⟩
    · rw [Segment.compile, hts, hspecial]
      simp [bind, Except.bind, htree, pure, Except.pure]
    · intro text
      rw [← hreads.matches_iff, matches_escape]
    -- nothing in these is special
    · rintro rfl
      cases hspecial
    · rintro rfl
      cases hspecial
    · rintro rfl
      cases hspecial

/-! ## What a walk finds -/

/-- The names in a directory and their paths, in the order of the names. -/
def children (fs : FileSystem) (dir : Path) : List (Name × Path) :=
  (sortNames (fs.namesAt dir)).map fun name => (name, childPath dir name)

/-- Everything below a directory, each directory before what it holds. -/
def descendants (fs : FileSystem) : Nat → Path → List (Name × Path)
  | 0, _ => []
  | depth + 1, dir =>
    (children fs dir).flatMap fun child =>
      child :: if fs.isDirectory child.2 then descendants fs depth child.2 else []

/-- The path leads to a directory that can be listed. -/
def isListed (fs : FileSystem) (dir : Path) : Bool := (fs.openDirectory dir).isOk

/-- The paths that components select from below `dir`, each looked up by itself. -/
def expand (fs : FileSystem) (directoriesOnly : Bool) : List Segment → Path → List Path
  | [], path => if directoriesOnly && !fs.isDirectory path then [] else [path]
  | .literal name :: rest, dir =>
    let path := childPath dir (Utf8.encode (String.ofList name))
    if isThere fs (.lookUp fs dir) name path then expand fs directoriesOnly rest path else []
  | .wild tokens :: rest, dir =>
    if isListed fs dir then
      (dotNames (.wild tokens)).flatMap (fun name =>
          expand fs directoriesOnly rest (dir / (⟨name⟩ : Path)))
        ++ (children fs dir).flatMap fun child =>
          if nameFits (.wild tokens) child.1 then expand fs directoriesOnly rest child.2 else []
    else []
  | [.tree], dir =>
    ((descendants fs FileSystem.maxPath dir).map Prod.snd).filter fs.isDirectory
  | .tree :: segment :: rest, dir =>
    (descendants fs FileSystem.maxPath dir).flatMap fun node =>
      if nameFits segment node.1 then expand fs directoriesOnly rest node.2 else []

theorem isListed_iff {fs : FileSystem} {dir : Path} :
    isListed fs dir = true ↔ ∃ loc, fs.openDirectory dir = .ok loc := by
  rw [isListed]
  cases fs.openDirectory dir <;> simp [Except.isOk, Except.toBool]

/-- What is listed is a directory; a directory is listed unless that is refused. -/
theorem isListed_of_isDirectory {fs : FileSystem} {dir : Path} (h : fs.isDirectory dir = true)
    (hlist : fs.Listable dir) : isListed fs dir = true := by
  rcases FileSystem.isDirectory_iff.1 h with ⟨loc, hresolve, hdir⟩
  exact isListed_iff.2
    ⟨loc, FileSystem.openDirectory_eq_ok_iff.2 ⟨hresolve, hdir, hlist loc hresolve hdir⟩⟩

theorem namesAt_of_not_listed {fs : FileSystem} {dir : Path} (h : isListed fs dir = false) :
    fs.namesAt dir = [] := by
  rw [FileSystem.namesAt]
  split
  · rename_i loc hopened
    rw [isListed_iff.2 ⟨loc, hopened⟩] at h
    cases h
  · rfl

/-! ## One piece of the way -/

theorem flatMap_unique {α β : Type} [DecidableEq α] {items : List α} (hnodup : items.Nodup)
    {test : α → Bool} {a : α} (htest : ∀ b, test b = true ↔ b = a) (f : α → List β) :
    (items.flatMap fun b => if test b then f b else []) = if a ∈ items then f a else [] := by
  induction items with
  | nil => rfl
  | cons b rest ih =>
    rcases List.nodup_cons.1 hnodup with ⟨hb, hrest⟩
    rw [List.flatMap_cons, ih hrest]
    by_cases heq : b = a
    · subst heq
      simp [(htest b).2 rfl, hb]
    · have hfails : test b = false := by
        cases hb : test b with
        | false => rfl
        | true => exact absurd ((htest b).1 hb) heq
      simp [hfails, Ne.symm heq]

section

variable {fs : FileSystem} {dir : Path} {piece : List Char}

theorem isDirectory_of_child (h : OnWay dir) (hslash : '/' ∉ piece)
    (hchild : fs.isDirectory (childPath dir (nameOf piece)) = true) :
    fs.isDirectory dir = true := by
  rcases FileSystem.isDirectory_iff.1 hchild with ⟨loc, hresolve, _⟩
  rcases resolve_of_child h.toWalked (slash_not_mem_nameOf hslash) hresolve with
    ⟨parent, hparent, hopen, _⟩
  exact FileSystem.isDirectory_iff.2 ⟨parent, hparent, hopen.directory⟩

/-- A directory below a path is there to go on from. -/
theorem isThere_of_child (h : OnWay dir) (hslash : '/' ∉ piece)
    (hchild : fs.isDirectory (childPath dir (nameOf piece)) = true) :
    isThere fs (.lookUp fs dir) piece (childPath dir (nameOf piece)) = true := by
  rw [isThere]
  split
  · exact isDirectory_of_child h hslash hchild
  · rcases FileSystem.isDirectory_iff.1 hchild with ⟨loc, hresolve, _⟩
    exact FileSystem.isPresent_of_resolve hresolve

theorem hasEntry_of_child (h : OnWay dir) (hslash : '/' ∉ piece)
    (hname : FileSystem.IsEntry (nameOf piece)) {node : Node}
    (hstat : fs.stat (childPath dir (nameOf piece)) = .ok node) :
    fs.HasEntry dir (nameOf piece) := by
  have hbytes : Path.slash ∉ nameOf piece := slash_not_mem_nameOf hslash
  rcases FileSystem.resolve_of_stat hstat with ⟨loc, hresolve, _⟩
  have hsteps := steps_child dir hbytes
  rw [Path.steps_name hbytes, hname.1] at hsteps
  exact FileSystem.hasEntry_of_stat hstat (isAbsolute_child dir hbytes) hsteps hname
    (fits_of_child h.toWalked hbytes (FileSystem.resolve_iff.1 hresolve).1)

/-- A component that accepts one text takes the one name that spells it. -/
theorem nameFits_only {segment : Segment}
    (honly : ∀ text, segment.accepts text = true ↔ text = piece) (name : Name) :
    nameFits segment name = true ↔ name = nameOf piece := by
  rw [nameFits]
  cases htext : Utf8.text? name with
  | none =>
    have hne : name ≠ nameOf piece := by
      rintro rfl
      rw [text?_nameOf] at htext
      cases htext
    simp [hne]
  | some text =>
    have hname : Utf8.encode text = name := Utf8.text?_eq_some_iff.1 htext
    show segment.accepts text.toList = true ↔ _
    rw [honly]
    constructor
    · rintro rfl
      rw [nameOf, String.ofList_toList, hname]
    · rintro rfl
      rw [text?_nameOf] at htext
      cases htext
      simp

theorem nameFits_literal (piece : List Char) (name : Name) :
    nameFits (.literal piece) name = true ↔ name = nameOf piece := by
  refine nameFits_only (fun text => ?_) name
  rw [Segment.accepts, beq_iff_eq]
  exact eq_comm

theorem nameFits_wild {ts : List Token} (haccepts : ∀ text, accepts ts text = true ↔ text = piece)
    (name : Name) : nameFits (.wild ts) name = true ↔ name = nameOf piece := by
  have honly : ∀ text, Segment.accepts text (.wild ts) = true ↔ text = piece := haccepts
  exact nameFits_only honly name

theorem nodup_sortNames {names : List Name} (h : names.Nodup) : (sortNames names).Nodup :=
  (List.mergeSort_perm names Name.le).nodup_iff.2 h

theorem mem_sortNames {names : List Name} {name : Name} : name ∈ sortNames names ↔ name ∈ names :=
  (List.mergeSort_perm names Name.le).mem_iff

theorem dotNames_wild {ts : List Token} (haccepts : ∀ text, accepts ts text = true ↔ text = piece)
    (hname : FileSystem.IsEntry (nameOf piece)) : dotNames (.wild ts) = [] := by
  rw [dotNames]
  split
  · refine List.filter_eq_nil_iff.2 fun name hmem hfits => ?_
    rw [nameFits_wild haccepts] at hfits
    subst hfits
    rcases hname with ⟨hidle, hup⟩
    rcases List.mem_cons.1 hmem with hdots | hmem
    · rw [hdots] at hup
      cases hup
    · rw [List.mem_singleton.1 hmem] at hidle
      cases hidle
  · rfl

/--
A component that stands for one name takes a walk below it, or to nothing; if what had to be listed
can be, then only where there is no directory.
-/
theorem expand_step (h : OnWay dir) (hslash : '/' ∉ piece) {segment : Segment}
    (hstands : Stands piece segment) (rest : List Segment) :
    expand fs false (segment :: rest) dir = expand fs false rest (childPath dir (nameOf piece)) ∨
      (expand fs false (segment :: rest) dir = [] ∧
        (((escape piece).any isMeta = true → fs.Listable dir) →
          fs.isDirectory (childPath dir (nameOf piece)) = false)) := by
  cases hstands with
  | literal =>
    have hexpand : expand fs false (.literal piece :: rest) dir =
        if isThere fs (.lookUp fs dir) piece (childPath dir (nameOf piece))
        then expand fs false rest (childPath dir (nameOf piece)) else [] := by
      rw [expand]
      rfl
    rw [hexpand]
    cases hchild : fs.isDirectory (childPath dir (nameOf piece)) with
    | true => exact .inl (if_pos (isThere_of_child h hslash hchild))
    | false =>
      split
      · exact .inl rfl
      · exact .inr ⟨rfl, fun _ => rfl⟩
  | @wild ts haccepts hname hspecial =>
    have hchildren : (children fs dir).flatMap (fun child =>
        if nameFits (.wild ts) child.1 then expand fs false rest child.2 else []) =
          if nameOf piece ∈ fs.namesAt dir
          then expand fs false rest (childPath dir (nameOf piece)) else [] := by
      rw [children, List.flatMap_map]
      rw [flatMap_unique (nodup_sortNames (FileSystem.nodup_namesAt fs dir))
        (nameFits_wild haccepts) fun name => expand fs false rest (childPath dir name)]
      simp only [mem_sortNames]
    have hexpand : expand fs false (.wild ts :: rest) dir =
        if isListed fs dir = true ∧ nameOf piece ∈ fs.namesAt dir
        then expand fs false rest (childPath dir (nameOf piece)) else [] := by
      rw [expand, dotNames_wild haccepts hname, hchildren]
      cases isListed fs dir <;> simp
    rw [hexpand]
    split
    · exact .inl rfl
    · rename_i hnot
      refine .inr ⟨rfl, fun hlist => ?_⟩
      cases hchild : fs.isDirectory (childPath dir (nameOf piece)) with
      | false => rfl
      | true =>
        have hlist : fs.Listable dir := hlist hspecial
        have hentry := hasEntry_of_child h hslash hname (FileSystem.stat_of_isDirectory hchild)
        exact absurd ⟨isListed_of_isDirectory (isDirectory_of_child h hslash hchild) hlist,
          (FileSystem.mem_namesAt_iff hlist).2 hentry⟩ hnot

end

/-! ## All of the way -/

/-- What comes after dots is not an empty name, so a walk from the start can go on. -/
def Leaves (pieces : List (List Char)) : Prop :=
  (pieces.dropWhile fun piece => piece == ['.']).head? ≠ some []

instance (pieces : List (List Char)) : Decidable (Leaves pieces) :=
  inferInstanceAs (Decidable (_ ≠ _))

theorem leaves_cons (piece : List Char) (rest : List (List Char)) :
    Leaves (piece :: rest) ↔ if piece = ['.'] then Leaves rest else piece ≠ [] := by
  by_cases hdot : piece = ['.']
  · simp [Leaves, hdot]
  · simp [Leaves, hdot]

/-- The path that a walk comes to along pieces. -/
def along (dir : Path) (pieces : List (List Char)) : Path :=
  pieces.foldl (fun dir piece => childPath dir (nameOf piece)) dir

section

variable {fs : FileSystem} {pieces : List (List Char)} {dir : Path}

theorem onWay_child (h : OnWay dir) {piece : List Char} (hslash : '/' ∉ piece)
    (hleaves : isStart dir = true → Leaves (piece :: pieces)) :
    OnWay (childPath dir (nameOf piece)) ∧
      (isStart (childPath dir (nameOf piece)) = true → Leaves pieces) := by
  have hname : Path.slash ∉ nameOf piece := slash_not_mem_nameOf hslash
  have htext : Path.isText ⟨nameOf piece⟩ = true := Path.isText_iff.2 ⟨String.ofList piece, rfl⟩
  constructor
  · refine h.child hname htext fun hstart hempty => ?_
    have hpiece : piece = [] := nameOf_inj hempty
    have hleaves := hleaves hstart
    simp [leaves_cons, hpiece] at hleaves
  · intro hchild
    cases hstart : isStart dir with
    | true =>
      -- from the start to the start leads only a dot
      rw [h.start hstart, childPath_start] at hchild
      have hpiece : piece = ['.'] := nameOf_inj (name_of_isStart hname hchild)
      have hleaves := hleaves hstart
      rwa [leaves_cons, if_pos hpiece] at hleaves
    | false =>
      rw [childPath_of_not_start hstart, not_isStart_join h.some hname hstart] at hchild
      cases hchild

theorem onWay_along (h : OnWay dir) (hslash : ∀ piece ∈ pieces, '/' ∉ piece)
    (hleaves : isStart dir = true → Leaves pieces) : OnWay (along dir pieces) := by
  induction pieces generalizing dir with
  | nil => exact h
  | cons piece rest ih =>
    rcases List.forall_mem_cons.1 hslash with ⟨hpiece, hrest⟩
    rcases onWay_child h hpiece hleaves with ⟨hchild, hmore⟩
    exact ih hchild hrest hmore

/-- The way leads through directories only. -/
theorem isDirectory_of_along (h : OnWay dir) (hslash : ∀ piece ∈ pieces, '/' ∉ piece)
    (hleaves : isStart dir = true → Leaves pieces)
    (hdir : fs.isDirectory (along dir pieces) = true) : fs.isDirectory dir = true := by
  induction pieces generalizing dir with
  | nil => exact hdir
  | cons piece rest ih =>
    rcases List.forall_mem_cons.1 hslash with ⟨hpiece, hrest⟩
    rcases onWay_child h hpiece hleaves with ⟨hchild, hmore⟩
    exact isDirectory_of_child h hpiece (ih hchild hrest hmore hdir)

/-- Directories can be listed where the next piece has characters that are special in patterns. -/
def ListableAlong (fs : FileSystem) : Path → List (List Char) → Prop
  | _, [] => True
  | dir, piece :: rest => ((escape piece).any isMeta = true → fs.Listable dir) ∧
    ListableAlong fs (childPath dir (nameOf piece)) rest

/--
A walk along pieces that stand for names comes to their directory, or to nothing; if what had to be
listed can be, then only where there is no directory.
-/
theorem expand_descent (h : OnWay dir) {segments : List Segment}
    (hstands : StandAll pieces segments) (hslash : ∀ piece ∈ pieces, '/' ∉ piece)
    (hleaves : isStart dir = true → Leaves pieces) (rest : List Segment) :
    expand fs false (segments ++ rest) dir = expand fs false rest (along dir pieces) ∨
      (expand fs false (segments ++ rest) dir = [] ∧
        (ListableAlong fs dir pieces → fs.isDirectory (along dir pieces) = false)) := by
  induction hstands generalizing dir with
  | nil => exact .inl rfl
  | @cons piece segment pieces segments hpiece _ ih =>
    rcases List.forall_mem_cons.1 hslash with ⟨hfirst, hothers⟩
    rcases onWay_child h hfirst hleaves with ⟨hchild, hmore⟩
    rcases @expand_step fs _ _ h hfirst _ hpiece (segments ++ rest) with
      hstep | ⟨hnothing, hnone⟩
    · rw [List.cons_append, hstep]
      exact (ih hchild hothers hmore).imp id fun hrest => ⟨hrest.1, fun hlist => hrest.2 hlist.2⟩
    · refine .inr ⟨hnothing, fun hlist => ?_⟩
      cases hdir : fs.isDirectory (along dir (piece :: pieces)) with
      | false => rfl
      | true =>
        have hthere := isDirectory_of_along hchild hothers hmore hdir
        rw [hnone hlist.1] at hthere
        cases hthere

/-- The way from a path adds the steps of its pieces. -/
theorem along_steps (h : OnWay dir) (hslash : ∀ piece ∈ pieces, '/' ∉ piece)
    (hleaves : isStart dir = true → Leaves pieces) :
    (along dir pieces).isAbsolute = dir.isAbsolute ∧ (along dir pieces).steps =
      dir.steps ++ (pieces.map nameOf).filter fun name => !isIdle name := by
  induction pieces generalizing dir with
  | nil => exact ⟨rfl, by simp [along]⟩
  | cons piece rest ih =>
    rcases List.forall_mem_cons.1 hslash with ⟨hpiece, hrest⟩
    rcases onWay_child h hpiece hleaves with ⟨hchild, hmore⟩
    rcases ih hchild hrest hmore with ⟨habsolute, hsteps⟩
    have hname : Path.slash ∉ nameOf piece := slash_not_mem_nameOf hpiece
    refine ⟨habsolute.trans (isAbsolute_child dir hname), hsteps.trans ?_⟩
    rw [steps_child dir hname, Path.steps_name hname, List.append_assoc, List.map_cons]
    cases hidle : isIdle (nameOf piece) <;> simp [hidle]

end

/-! ## A pattern below a directory -/

/-- Escaping changes nothing about the pieces of a text. -/
theorem splitOn_escape (text : List Char) :
    (escape text).splitOn '/' = (text.splitOn '/').map escape := by
  induction text with
  | nil => rfl
  | cons c rest ih =>
    have hcons : ∀ rest, escape (c :: rest) = escape [c] ++ escape rest := fun rest => by
      rw [← List.singleton_append, escape, List.flatMap_append]
      rfl
    rw [hcons, List.splitOn_cons_eq_if_modifyHead c]
    by_cases hc : c = '/'
    · -- a slash is an empty piece before the others
      subst hc
      have hslash : escape ['/'] = ['/'] := by decide
      rw [hslash, List.singleton_append, List.splitOn_cons_eq_if_modifyHead, ih]
      simp [escape]
    · have hne : (c == '/') = false := by simpa using hc
      have hpiece : '/' ∉ escape [c] := slash_not_mem_escape (by simpa using Ne.symm hc)
      rw [Utf8.splitOn_append hpiece, ih, hne]
      cases rest.splitOn '/' with
      | nil => rfl
      | cons first others => simp [hcons first]

end Glob
end BootSigning
