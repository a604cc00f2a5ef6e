import BootSigning.Proofs.Course
import BootSigning.Proofs.Descent

/-!
# Choice — what a glob finds at the end of its way

A pattern laid below a directory first follows the pieces of the directory; its own component is
the last one, and takes names from a listing or spells a single one.

* `search_below`: the walk of such a pattern is that along the directory, then one for the pattern;
* `Takes`, `namesOf`: the names that the last component takes, and those of regular files;
* `filesAmong_last`: the files found at the end are those names, in their order.
-/

namespace BootSigning

/-! ## Lexicographic order -/

/-- What lists have in common at their beginning does not matter for their order. -/
theorem lexLe_append {α : Type} {le : α → α → Bool} (total : ∀ a b, le a b || le b a)
    (before as bs : List α) : lexLe le (before ++ as) (before ++ bs) = lexLe le as bs := by
  have refl : ∀ a, le a a = true := fun a => by simpa using total a a
  induction before with
  | nil => rfl
  | cons a rest ih => simpa [lexLe, refl a] using ih

/-- The order of names is that of lists of bytes. -/
theorem Name.lt_of_le {a b : Name} (h : Name.le a b = true) (hne : a ≠ b) : a < b := by
  induction a generalizing b with
  | nil =>
    cases b with
    | nil => exact absurd rfl hne
    | cons b bs => exact List.nil_lt_cons b bs
  | cons a as ih =>
    cases b with
    | nil => cases h
    | cons b bs =>
      have hble : Nat.ble b.toNat a.toNat = false ↔ a.toNat < b.toNat := by
        rw [← Nat.not_le, ← Nat.ble_eq, Bool.not_eq_true]
      have h : a.toNat ≤ b.toNat ∧ (a.toNat < b.toNat ∨ Name.le as bs = true) := by
        simpa [Name.le, lexLe, hble] using h
      by_cases hlt : a.toNat < b.toNat
      · exact List.cons_lt_cons_iff.2 (.inl (UInt8.lt_iff_toNat_lt.2 hlt))
      · have hab : a = b := UInt8.toNat_inj.1 (Nat.le_antisymm h.1 (Nat.le_of_not_lt hlt))
        subst hab
        have hrest : as ≠ bs := fun heq => hne (congrArg (a :: ·) heq)
        exact List.cons_lt_cons_iff.2 (.inr ⟨rfl, ih (h.2.resolve_left hlt) hrest⟩)

theorem Name.le_total (a b : Name) : (Name.le a b || Name.le b a) = true :=
  lexLe_total ble_total _ _

theorem Name.le_trans (a b c : Name) (hab : Name.le a b = true) (hbc : Name.le b c = true) :
    Name.le a c = true :=
  lexLe_trans ble_trans _ _ _ hab hbc

/-- The regular files among paths that are text, in the order of their paths. -/
def ArtifactGlob.filesAmong (fs : FileSystem) (paths : List Path) : List Path :=
  (paths.filter fun p => p.isText && fs.isFile p).mergeSort Path.le

@[simp] theorem ArtifactGlob.filesAmong_nil (fs : FileSystem) : filesAmong fs [] = [] := by
  simp [filesAmong]

namespace Glob

open FileSystem (isIdle isUp Fits IsEntry)

/-! ## The walk of a pattern below a directory -/

/-- The pieces of a directory that a walk follows; a slash in front says only where it starts. -/
def piecesOf (text : List Char) : List (List Char) :=
  if text.head? = some '/' then (text.splitOn '/').tail else text.splitOn '/'

/-- Where a walk along a directory starts. -/
def startOf (text : List Char) : Path :=
  if text.head? = some '/' then ⟨[Path.slash]⟩ else ⟨[Path.dot]⟩

/-- A walk starts at the root or at the dot; a slash in front is an empty piece before others. -/
theorem start_cases (text : List Char) :
    (text.head? = some '/' ∧ startOf text = ⟨[Path.slash]⟩ ∧
      text.splitOn '/' = [] :: piecesOf text) ∨
    (text.head? ≠ some '/' ∧ startOf text = ⟨[Path.dot]⟩ ∧ text.splitOn '/' = piecesOf text) := by
  by_cases hhead : text.head? = some '/'
  · refine .inl ⟨hhead, by rw [startOf, if_pos hhead], ?_⟩
    rw [piecesOf, if_pos hhead]
    cases text with
    | nil => cases hhead
    | cons c rest =>
      have hc : c = '/' := by simpa using hhead
      rw [List.splitOn_cons_eq_if_modifyHead, hc]
      rfl
  · exact .inr ⟨hhead, by rw [startOf, if_neg hhead], by rw [piecesOf, if_neg hhead]⟩

theorem Stands.ne_tree {piece : List Char} {segment : Segment} (h : Stands piece segment) :
    segment ≠ .tree := by
  cases h <;> nofun

theorem StandAll.no_tree {pieces : List (List Char)} {segments : List Segment}
    (h : StandAll pieces segments) : Segment.tree ∉ segments := by
  induction h with
  | nil => exact List.not_mem_nil
  | cons hpiece _ ih => simp [ih, hpiece.ne_tree.symm]

theorem collapse_eq {segments : List Segment} (h : Segment.tree ∉ segments) :
    collapse segments = segments := by
  fun_induction collapse segments with
  | case1 => simp at h
  | case2 segment rest _ ih => rw [ih (mt (List.mem_cons_of_mem _) h)]
  | case3 => rfl

theorem mapM_escape {pieces : List (List Char)} (hslash : ∀ piece ∈ pieces, '/' ∉ piece) :
    ∃ segments, StandAll pieces segments ∧
      (pieces.map escape).mapM Segment.compile = .ok segments := by
  induction pieces with
  | nil => exact ⟨[], .nil, rfl⟩
  | cons piece rest ih =>
    rcases List.forall_mem_cons.1 hslash with ⟨hpiece, hrest⟩
    rcases stands_escape hpiece with ⟨segment, hsegment, hstands⟩
    rcases ih hrest with ⟨segments, hall, hsegments⟩
    refine ⟨segment :: segments, .cons hstands hall, ?_⟩
    simp only [List.map_cons, List.mapM_cons, hsegment, hsegments]
    rfl

/-- A pattern that can be read can be read below a directory. -/
theorem compile_below (text : List Char) {pattern : List Char} {ts : List Token}
    (h : compile pattern = .ok ts) : ∃ ts', compile (escape text ++ '/' :: pattern) = .ok ts' := by
  rcases (simple_escape text).foldlM_step .start rfl with ⟨r, hfold, hreading⟩
  rcases r with ⟨position, fresh, tokens, reading⟩
  cases hreading
  have hslash : Reader.step ⟨position, fresh, tokens, .between⟩ '/' =
      .ok ⟨position + 1, true, .char '/' :: tokens, .between⟩ := rfl
  have hstart : Reader.Alike .start ⟨position + 1, true, .char '/' :: tokens, .between⟩ := .between
  rcases Reader.readRest_alike hstart h with ⟨ts', hread⟩
  rw [← Reader.readRest_cons hslash] at hread
  refine ⟨ts', ?_⟩
  rw [← hread, compile, List.foldlM_append, hfold]
  rfl

theorem slash_not_mem_piecesOf {text piece : List Char} (h : piece ∈ piecesOf text) :
    '/' ∉ piece := by
  have hsplit : piece ∈ text.splitOn '/' := by
    rw [piecesOf] at h
    split at h
    · exact List.mem_of_mem_tail h
    · exact h
  exact fun hslash => (FileSystem.mem_splitOn hsplit hslash).1 rfl

/-- A pattern with a slash in front of its last component has that component and those before. -/
theorem componentsOf_append (before : List Char) {pattern : List Char} (hpattern : pattern ≠ [])
    (hslash : '/' ∉ pattern) :
    componentsOf (before ++ '/' :: pattern) = before.splitOn '/' ++ [pattern] := by
  have hpieces : (before ++ '/' :: pattern).splitOn '/' = before.splitOn '/' ++ [pattern] := by
    rw [List.splitOn_append_cons_self, List.splitOn_eq_singleton hslash]
  rw [componentsOf, hpieces, List.getLast?_concat]
  simp [hpattern]

section

variable {full body : List Char} {ts : List Token} {segments : List Segment}

theorem ofPattern_relative (hhead : full.head? ≠ some '/') (hcompile : compile full = .ok ts)
    (hsegments : (componentsOf full).mapM Segment.compile = .ok segments)
    (hnone : Segment.tree ∉ segments) (hend : full.getLast? ≠ some '/') :
    Search.ofPattern full = .ok ⟨⟨[Path.dot]⟩, segments, false⟩ := by
  have hfirst : (full.head? == some '/') = false := by simpa using hhead
  have hlast : (full.getLast? == some '/') = false := by simpa using hend
  simp [Search.ofPattern, hcompile, hfirst, hlast, hsegments, collapse_eq hnone, bind, Except.bind,
    pure, Except.pure]

theorem ofPattern_absolute (hbody : body ≠ []) (hcompile : compile ('/' :: body) = .ok ts)
    (hsegments : (componentsOf body).mapM Segment.compile = .ok segments)
    (hnone : Segment.tree ∉ segments) (hend : ('/' :: body).getLast? ≠ some '/') :
    Search.ofPattern ('/' :: body) = .ok ⟨⟨[Path.slash]⟩, segments, false⟩ := by
  have hlast : (('/' :: body).getLast? == some '/') = false := by simpa using hend
  simp [Search.ofPattern, hcompile, hbody, hlast, hsegments, collapse_eq hnone, bind, Except.bind,
    pure, Except.pure]

end

section

variable {text pattern : List Char} {last : Segment}

theorem not_slash_at_end (before : List Char) (hpattern : pattern ≠ []) (hslash : '/' ∉ pattern) :
    (before ++ '/' :: pattern).getLast? ≠ some '/' := by
  rw [List.getLast?_append, List.getLast?_cons]
  cases hfinal : pattern.getLast? with
  | none => exact absurd (List.getLast?_eq_none_iff.1 hfinal) hpattern
  | some final =>
    have hmem : final ∈ pattern := List.mem_of_getLast? hfinal
    simpa using fun h : final = '/' => hslash (h ▸ hmem)

theorem componentsOf_below (text : List Char) (hpattern : pattern ≠ []) (hslash : '/' ∉ pattern) :
    componentsOf (escape text ++ '/' :: pattern) = (text.splitOn '/').map escape ++ [pattern] := by
  rw [componentsOf_append _ hpattern hslash, splitOn_escape]

/-- The walk of a pattern below a directory follows its pieces, then the pattern. -/
theorem search_below (htext : text ≠ []) (hpattern : pattern ≠ []) (hslash : '/' ∉ pattern)
    (hlast : Segment.compile pattern = .ok last) (htree : last ≠ .tree) {ts : List Token}
    (hcompile : compile pattern = .ok ts) :
    ∃ segments, StandAll (piecesOf text) segments ∧
      Search.ofPattern (escape text ++ '/' :: pattern) =
        .ok ⟨startOf text, segments ++ [last], false⟩ := by
  rcases compile_below text hcompile with ⟨all, hall⟩
  have hpieces : ∀ piece ∈ piecesOf text, '/' ∉ piece := fun _ => slash_not_mem_piecesOf
  rcases mapM_escape hpieces with ⟨segments, hstands, hsegments⟩
  refine ⟨segments, hstands, ?_⟩
  have hmapped : ((piecesOf text).map escape ++ [pattern]).mapM Segment.compile =
      .ok (segments ++ [last]) := by
    rw [List.mapM_append, hsegments]
    simp only [List.mapM_cons, List.mapM_nil, hlast]
    rfl
  have hnone : Segment.tree ∉ segments ++ [last] := by
    simp [hstands.no_tree, Ne.symm htree]
  have hend := not_slash_at_end (escape text) hpattern hslash
  cases text with
  | nil => exact absurd rfl htext
  | cons c rest =>
    rcases start_cases (c :: rest) with ⟨hhead, hstart, hsplit⟩ | ⟨hhead, hstart, hsplit⟩
    · -- the slash in front is no part of the components
      have hc : c = '/' := by simpa using hhead
      subst hc
      have hescape : escape ('/' :: rest) = '/' :: escape rest := by
        rw [escape_cons]
        rfl
      have hrest : piecesOf ('/' :: rest) = rest.splitOn '/' := by
        rw [List.splitOn_cons_eq_if_modifyHead] at hsplit
        exact (List.cons.inj hsplit).2.symm
      rw [hrest, ← componentsOf_below rest hpattern hslash] at hmapped
      rw [hescape] at hall hend ⊢
      rw [hstart]
      exact ofPattern_absolute (by simp) hall hmapped hnone hend
    · have hrelative : (escape (c :: rest) ++ '/' :: pattern).head? ≠ some '/' := by
        have hc : c ≠ '/' := by simpa using hhead
        rw [escape_cons]
        split <;> simp [hc]
      rw [← hsplit, ← componentsOf_below _ hpattern hslash] at hmapped
      rw [hstart]
      exact ofPattern_relative hrelative hall hmapped hnone hend

end

/-! ## The last step -/

/-- The name is text that matches the pattern. -/
def NameMatches (pattern : List Char) (name : Name) : Prop :=
  ∃ text, Utf8.text? name = some text ∧ Matches pattern text.toList

/-- The component takes what its pattern matches. -/
inductive Takes : List Char → Segment → Prop where
  | literal {pattern : List Char} (hplain : pattern.any isMeta = false) :
      Takes pattern (.literal pattern)
  | wild {pattern : List Char} {ts : List Token}
      (haccepts : ∀ text, accepts ts text = true ↔ Matches pattern text) :
      Takes pattern (.wild ts)

/-- Without special characters a pattern matches itself alone. -/
theorem matches_plain {pattern : List Char} (hplain : pattern.any isMeta = false)
    (text : List Char) : Matches pattern text ↔ text = pattern := by
  induction pattern generalizing text with
  | nil =>
    constructor
    · intro h
      cases h
      rfl
    · rintro rfl
      exact .nil
  | cons c rest ih =>
    rw [List.any_cons, Bool.or_eq_false_iff] at hplain
    rw [matches_char hplain.1]
    simp only [ih hplain.2]
    constructor
    · rintro ⟨others, rfl, rfl⟩
      rfl
    · rintro rfl
      exact ⟨rest, rfl, rfl⟩

/-- A pattern for one name that can be read is a component that takes what it matches. -/
theorem takes_compile {pattern : List Char} {ts : List Token} (h : compile pattern = .ok ts)
    (hslash : '/' ∉ pattern) (htree : pattern ≠ ['*', '*']) :
    ∃ last, Segment.compile pattern = .ok last ∧ last ≠ .tree ∧ Takes pattern last := by
  have hreads : Reads pattern ts := reads_of_compile h hslash htree
  have hts : ts ≠ [.tree] := by
    rintro rfl
    exact hreads.no_tree List.mem_cons_self
  cases hspecial : pattern.any isMeta with
  | false =>
    refine ⟨.literal pattern, ?_, by simp, .literal hspecial⟩
    rw [Segment.compile, h, hspecial]
    simp [bind, Except.bind, hts, pure, Except.pure]
  | true =>
    refine ⟨.wild ts, ?_, by simp, .wild fun text => (hreads.matches_iff text).symm⟩
    rw [Segment.compile, h, hspecial]
    simp [bind, Except.bind, hts, pure, Except.pure]

theorem Takes.nameFits_iff {pattern : List Char} {last : Segment} (h : Takes pattern last)
    (name : Name) : nameFits last name = true ↔ NameMatches pattern name := by
  rw [nameFits, NameMatches]
  cases htext : Utf8.text? name with
  | none => simp
  | some text =>
    have hmatches : Segment.accepts text.toList last = true ↔ Matches pattern text.toList := by
      cases h with
      | literal hplain =>
        rw [matches_plain hplain, Segment.accepts, beq_iff_eq]
        exact eq_comm
      | wild haccepts => exact haccepts text.toList
    simpa using hmatches

section

variable {fs : FileSystem} {dir : Path}

/-- The names that a component looks at: the one that it spells, or those that are listed. -/
def lookedAt (fs : FileSystem) (dir : Path) : Segment → List Name
  | .literal piece => [nameOf piece]
  | .wild _ | .tree => sortNames (fs.namesAt dir)

/-- Those of them that the component takes and that lead to regular files. -/
def namesOf (fs : FileSystem) (last : Segment) (dir : Path) : List Name :=
  (lookedAt fs dir last).filter fun name => nameFits last name && fs.isFile (childPath dir name)

/-- A regular file that a literal component leads to is there to go on to. -/
theorem isThere_of_isFile (h : OnWay dir) {piece : List Char} (hslash : '/' ∉ piece)
    (hfile : fs.isFile (childPath dir (nameOf piece)) = true) :
    isThere fs (.lookUp fs dir) piece (childPath dir (nameOf piece)) = true := by
  rcases pieces_child h.toWalked (slash_not_mem_nameOf hslash) with ⟨before, hpieces, _⟩
  have hentry : IsEntry (nameOf piece) := FileSystem.isEntry_of_isFile hfile hpieces
  have hdots : ¬(piece = ['.'] ∨ piece = ['.', '.']) := by
    have hbytes : ¬IsEntry (nameOf ['.']) ∧ ¬IsEntry (nameOf ['.', '.']) := by
      simp only [IsEntry]
      decide +kernel
    rintro (rfl | rfl)
    · exact hbytes.1 hentry
    · exact hbytes.2 hentry
  rcases FileSystem.isFile_iff.1 hfile with ⟨loc, _, _, hresolve, _⟩
  rw [isThere, if_neg hdots]
  exact FileSystem.isPresent_of_resolve hresolve

theorem flatMap_filter_eq {α β : Type} (items : List α) (test : α → Bool) (f : α → List β) :
    (items.flatMap fun a => if test a then f a else []) = (items.filter test).flatMap f := by
  induction items with
  | nil => rfl
  | cons a rest ih => cases htest : test a <;> simp [htest, ih]

/-- The names for a directory itself and its parent, as a pattern may ask for them. -/
theorem mem_dotNames {segment : Segment} {name : Name} (h : name ∈ dotNames segment) :
    Path.slash ∉ name ∧ Path.isText ⟨name⟩ = true ∧ ¬IsEntry name := by
  have hdots : name = [Path.dot, Path.dot] ∨ name = [Path.dot] := by
    rw [dotNames] at h
    split at h
    · simpa using (List.mem_filter.1 h).1
    · cases h
  rcases hdots with rfl | rfl <;> simp only [IsEntry] <;> decide +kernel

/-- Such a name leads to no regular file. -/
theorem isFile_dotNames (hdir : dir.bytes ≠ []) {segment : Segment} {name : Name}
    (hname : name ∈ dotNames segment) : fs.isFile (dir / (⟨name⟩ : Path)) = false := by
  rcases mem_dotNames hname with ⟨hslash, _, hnot⟩
  rcases Path.pieces_join hdir hslash with ⟨before, hpieces, _⟩
  cases hfile : fs.isFile (dir / (⟨name⟩ : Path)) with
  | false => rfl
  | true => exact absurd (FileSystem.isEntry_of_isFile hfile hpieces) hnot

theorem expand_literal_last (piece : List Char) :
    expand fs false [.literal piece] dir =
      if isThere fs (.lookUp fs dir) piece (childPath dir (nameOf piece))
      then [childPath dir (nameOf piece)] else [] := by
  rw [expand]
  rfl

theorem expand_wild_last (ts : List Token) (hlisted : isListed fs dir = true) :
    expand fs false [.wild ts] dir =
      ((dotNames (.wild ts)).map fun name => dir / (⟨name⟩ : Path)) ++
        ((sortNames (fs.namesAt dir)).filter (nameFits (.wild ts))).map (childPath dir) := by
  have hend : ∀ p, expand fs false [] p = [p] := fun _ => rfl
  rw [expand, if_pos hlisted, children, List.flatMap_map]
  simp only [hend, flatMap_filter_eq, ← List.map_eq_flatMap]

theorem isFile_expand_literal (h : OnWay dir) {piece : List Char} (hslash : '/' ∉ piece) :
    (expand fs false [.literal piece] dir).filter fs.isFile =
      (namesOf fs (.literal piece) dir).map (childPath dir) := by
  have hfits : nameFits (.literal piece) (nameOf piece) = true := (nameFits_literal _ _).2 rfl
  rw [expand_literal_last, namesOf, lookedAt]
  cases hfile : fs.isFile (childPath dir (nameOf piece)) with
  | false => split <;> simp [hfile]
  | true => simp [isThere_of_isFile h hslash hfile, hfile, hfits]

theorem isFile_expand_wild (h : OnWay dir) (ts : List Token) :
    (expand fs false [.wild ts] dir).filter fs.isFile =
      (namesOf fs (.wild ts) dir).map (childPath dir) := by
  cases hlisted : isListed fs dir with
  | false => simp [expand, hlisted, namesOf, lookedAt, namesAt_of_not_listed hlisted, sortNames]
  | true =>
    have hdots : ((dotNames (.wild ts)).map fun name => dir / (⟨name⟩ : Path)).filter
        fs.isFile = [] := by
      refine List.filter_eq_nil_iff.2 fun p hp => ?_
      rcases List.mem_map.1 hp with ⟨name, hname, rfl⟩
      simp [isFile_dotNames h.some hname]
    rw [expand_wild_last ts hlisted, List.filter_append, hdots, List.nil_append, List.filter_map,
      List.filter_filter, namesOf, lookedAt]
    congr 2
    funext name
    exact Bool.and_comm _ _

/-- The regular files that the last step of a walk leads to. -/
theorem isFile_expand_last (h : OnWay dir) {pattern : List Char} {last : Segment}
    (hslash : '/' ∉ pattern) (htakes : Takes pattern last) :
    (expand fs false [last] dir).filter fs.isFile =
      (namesOf fs last dir).map (childPath dir) := by
  cases htakes with
  | literal => exact isFile_expand_literal h hslash
  | wild => exact isFile_expand_wild h _

theorem isName_of_mem_namesAt {name : Name} (h : name ∈ fs.namesAt dir) :
    Path.slash ∉ name ∧ IsEntry name :=
  FileSystem.isName_of_isProperName (FileSystem.isProperName_of_mem_namesAt h)

/-- All that the last step of a walk leads to is text. -/
theorem isText_expand_last (h : OnWay dir) {pattern : List Char} {last : Segment}
    (hslash : '/' ∉ pattern) (htakes : Takes pattern last) :
    ∀ p ∈ expand fs false [last] dir, p.isText = true := by
  intro p hp
  cases htakes with
  | literal =>
    have hname : Path.isText ⟨nameOf pattern⟩ = true :=
      Path.isText_iff.2 ⟨String.ofList pattern, rfl⟩
    rw [expand_literal_last] at hp
    split at hp
    · rw [List.mem_singleton.1 hp]
      exact isText_child h (slash_not_mem_nameOf hslash) hname
    · cases hp
  | wild haccepts =>
    cases hlisted : isListed fs dir with
    | false => simp [expand, hlisted] at hp
    | true =>
      rw [expand_wild_last _ hlisted] at hp
      rcases List.mem_append.1 hp with hdots | hchild
      · rcases List.mem_map.1 hdots with ⟨name, hname, rfl⟩
        rcases mem_dotNames hname with ⟨hslash, htext, _⟩
        exact isText_join h.text hslash htext
      · rcases List.mem_map.1 hchild with ⟨name, hname, rfl⟩
        rcases List.mem_filter.1 hname with ⟨hmem, hfits⟩
        rcases ((Takes.wild haccepts).nameFits_iff name).1 hfits with ⟨text, htext, _⟩
        have hname : Path.isText ⟨name⟩ = true := by simp [Path.isText, htext]
        exact isText_child h (isName_of_mem_namesAt (mem_sortNames.1 hmem)).1 hname

end

/-! ## The order of the names -/

section

variable {dir : Path}

/-- Below one directory, paths are in the order of their names. -/
theorem components_child (h : OnWay dir) :
    ∃ before, ∀ name, Path.slash ∉ name → IsEntry name →
      (childPath dir name).components = before ++ [.named name] := by
  have hstep : ∀ name, Path.slash ∉ name → IsEntry name →
      (Path.steps ⟨name⟩).map FileSystem.componentOf = [.named name] := by
    rintro name hslash ⟨hidle, hup⟩
    rw [Path.steps_name hslash, hidle]
    simp [FileSystem.componentOf, hup]
  cases hstart : isStart dir with
  | true =>
    refine ⟨[], fun name hslash hentry => ?_⟩
    have hdot : name ≠ [Path.dot] := by
      rintro rfl
      simp [IsEntry, isIdle] at hentry
    have hfront : Path.front ⟨name⟩ = [] := by
      simp [Path.front, Path.isAbsolute_name hslash, Path.pieces_name hslash, hdot]
    rw [h.start hstart, childPath_start, Path.components_eq, hfront, hstep name hslash hentry]
  | false =>
    refine ⟨dir.components, fun name hslash hentry => ?_⟩
    rw [childPath_of_not_start hstart, Path.components_join h.some hslash, hstep name hslash hentry]

theorem childPath_le (h : OnWay dir) {a b : Name} (ha : Path.slash ∉ a ∧ IsEntry a)
    (hb : Path.slash ∉ b ∧ IsEntry b) : (childPath dir a).le (childPath dir b) = Name.le a b := by
  rcases components_child h with ⟨before, hbefore⟩
  have hkey : lexLe Nat.ble (3 :: a.map UInt8.toNat) (3 :: b.map UInt8.toNat) = Name.le a b :=
    rfl
  rw [Path.le, Path.key, Path.key, hbefore a ha.1 ha.2, hbefore b hb.1 hb.2, List.map_append,
    List.map_append, lexLe_append (lexLe_total ble_total)]
  show lexLe (lexLe Nat.ble) [3 :: a.map UInt8.toNat] [3 :: b.map UInt8.toNat] = _
  rw [lexLe, hkey]
  simp [lexLe]

theorem sorted_namesOf (fs : FileSystem) (last : Segment) (dir : Path) :
    (namesOf fs last dir).Pairwise fun a b => Name.le a b = true := by
  have hsorted : (lookedAt fs dir last).Pairwise fun a b => Name.le a b = true := by
    cases last with
    | literal => exact List.pairwise_singleton _ _
    | wild | tree => exact List.pairwise_mergeSort Name.le_trans Name.le_total _
  exact hsorted.filter _

/-- The names found are in the order of their bytes, and none is found twice. -/
theorem ascending_namesOf (fs : FileSystem) (last : Segment) (dir : Path) :
    (namesOf fs last dir).Pairwise (· < ·) := by
  have hnodup : (lookedAt fs dir last).Nodup := by
    cases last with
    | literal => simp [lookedAt]
    | wild | tree => exact nodup_sortNames (FileSystem.nodup_namesAt fs dir)
  exact ((sorted_namesOf fs last dir).and (hnodup.filter _)).imp fun h => Name.lt_of_le h.1 h.2

section

variable {fs : FileSystem} {pattern : List Char} {last : Segment} {name : Name}

/-- What is found has a name of its own in the directory. -/
theorem isName_of_mem_namesOf (h : OnWay dir) (hslash : '/' ∉ pattern)
    (htakes : Takes pattern last) (hname : name ∈ namesOf fs last dir) :
    Path.slash ∉ name ∧ IsEntry name := by
  rcases List.mem_filter.1 hname with ⟨hmem, htest⟩
  have hfile := (Bool.and_eq_true_iff.1 htest).2
  cases htakes with
  | literal =>
    rw [List.mem_singleton.1 hmem] at hfile ⊢
    have hbytes : Path.slash ∉ nameOf pattern := slash_not_mem_nameOf hslash
    rcases pieces_child h.toWalked hbytes with ⟨before, hpieces, _⟩
    exact ⟨hbytes, FileSystem.isEntry_of_isFile hfile hpieces⟩
  | wild => exact isName_of_mem_namesAt (mem_sortNames.1 hmem)

/-- The names found are those of entries that match and lead to regular files. -/
theorem namesOf_sound (h : OnWay dir) (hslash : '/' ∉ pattern) (htakes : Takes pattern last)
    (hname : name ∈ namesOf fs last dir) :
    fs.HasEntry dir name ∧ NameMatches pattern name ∧ fs.isFile (childPath dir name) = true := by
  rcases isName_of_mem_namesOf h hslash htakes hname with ⟨hbytes, hentry⟩
  rcases Bool.and_eq_true_iff.1 (List.mem_filter.1 hname).2 with ⟨hfits, hfile⟩
  refine ⟨?_, (htakes.nameFits_iff name).1 hfits, hfile⟩
  rcases FileSystem.isFile_iff.1 hfile with ⟨loc, _, _, hresolve, _⟩
  rcases resolve_of_child h.toWalked hbytes hresolve with
    ⟨parent, hparent, _, ⟨hidle, _⟩ | hup | hnode⟩
  · simp [hentry.1] at hidle
  · simp [hentry.2] at hup
  · exact ⟨parent, hparent, FileSystem.mem_names_iff.2 hnode⟩

/-- If the directory can be listed, all of those are found. -/
theorem namesOf_complete (htakes : Takes pattern last) (hlist : fs.Listable dir)
    (hentry : fs.HasEntry dir name) (hmatches : NameMatches pattern name)
    (hfile : fs.isFile (childPath dir name) = true) : name ∈ namesOf fs last dir := by
  have hfits : nameFits last name = true := (htakes.nameFits_iff name).2 hmatches
  have hmem : name ∈ lookedAt fs dir last := by
    cases htakes with
    | literal => exact List.mem_singleton.2 ((nameFits_literal _ _).1 hfits)
    | wild => exact mem_sortNames.2 ((FileSystem.mem_namesAt_iff hlist).2 hentry)
  exact List.mem_filter.2 ⟨hmem, by simp [hfits, hfile]⟩

/-- The files that the last step of a walk leads to, in the order of their paths. -/
theorem filesAmong_last (h : OnWay dir) (fs : FileSystem) (hslash : '/' ∉ pattern)
    (htakes : Takes pattern last) :
    ArtifactGlob.filesAmong fs (expand fs false [last] dir) =
      (namesOf fs last dir).map (childPath dir) := by
  have hfiles : (expand fs false [last] dir).filter (fun p => p.isText && fs.isFile p) =
      (namesOf fs last dir).map (childPath dir) := by
    rw [← isFile_expand_last h hslash htakes]
    refine List.filter_congr fun p hp => ?_
    rw [isText_expand_last h hslash htakes p hp, Bool.true_and]
  have hsorted : ((namesOf fs last dir).map (childPath dir)).Pairwise
      fun p q => p.le q = true := by
    refine List.pairwise_map.2 ((sorted_namesOf fs last dir).imp_of_mem ?_)
    intro a b ha hb hle
    rw [childPath_le h (isName_of_mem_namesOf h hslash htakes ha)
      (isName_of_mem_namesOf h hslash htakes hb)]
    exact hle
  rw [ArtifactGlob.filesAmong, hfiles, List.mergeSort_of_pairwise hsorted]

end

end

end Glob
end BootSigning
