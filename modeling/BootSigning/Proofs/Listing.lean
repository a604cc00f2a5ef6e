import BootSigning.Proofs.Reports
import BootSigning.Proofs.Runs

/-!
# Listing — the regular files that a glob selects in a directory

A pattern for one name, laid below a directory, selects the regular files of that directory whose
names match it, in the order of the names.  All of them are found if what has to be listed can be.

* `Glob.wayTo`: the directory as a walk spells it, with nothing that the text does not say;
* `ArtifactGlob.Unhindered`: every directory that a walk has to list can be listed;
* `ArtifactGlob.Lists`: names of files in a directory, and when there are no others;
* `ArtifactGlob.files_in_directory`: the selection;
* `ArtifactGlob.no_files_after_empty_name`: a relative directory that starts with dots and an empty
  name is not found at all.
-/

namespace BootSigning
namespace Glob

open FileSystem (isIdle isUp Fits IsEntry SameWay)

/-! ## The pieces of a text -/

theorem eq_of_splitOn {α : Type} [BEq α] [LawfulBEq α] {sep : α} {items first : List α}
    {others : List (List α)} (h : items.splitOn sep = first :: others) :
    items = first ++ others.flatMap (sep :: ·) := by
  have hjoin : ∀ first : List α, [sep].intercalate (first :: others) =
      first ++ others.flatMap (sep :: ·) := by
    clear h
    induction others with
    | nil => simp [List.intercalate]
    | cons second rest ih =>
      intro first
      have hsecond := ih second
      simp only [List.intercalate] at hsecond ⊢
      simp [hsecond]
  rw [← hjoin, ← h, List.intercalate_splitOn]

theorem eq_nil_of_nameOf {piece : List Char} (h : nameOf piece = []) : piece = [] := by
  have hempty : nameOf [] = [] := rfl
  exact nameOf_inj (h.trans hempty.symm)

/-- A text is an absolute path if it starts with a slash. -/
theorem isAbsolute_ofString (s : String) :
    (Path.ofString s).isAbsolute = true ↔ s.toList.head? = some '/' := by
  have hbytes : (Path.ofString s).bytes = s.toList.flatMap Utf8.encodeChar := rfl
  rw [Path.isAbsolute, hbytes, beq_iff_eq]
  cases s.toList with
  | nil => simp
  | cons c rest =>
    rw [List.flatMap_cons, List.head?_append, List.head?_cons, Option.some_inj]
    by_cases hc : c = '/'
    · subst hc
      have hone : Utf8.encodeChar '/' = [Path.slash] := by decide +kernel
      simp [hone]
    · have hname : nameOf [c] = Utf8.encodeChar c := by
        rw [nameOf, Utf8.encode, String.toList_ofList, List.flatMap_singleton]
      have hsome : Utf8.encodeChar c ≠ [] := by
        intro hnil
        cases eq_nil_of_nameOf (hname.trans hnil)
      have hslash : Path.slash ∉ Utf8.encodeChar c := Utf8.slash_not_mem_encodeChar hc
      cases hfirst : Utf8.encodeChar c with
      | nil => exact absurd hfirst hsome
      | cons b more =>
        rw [hfirst] at hslash
        have hb : b ≠ Path.slash := fun h => hslash (h ▸ List.mem_cons_self)
        simp [hb, hc]

/-! ## The directory as a walk spells it -/

/-- Where a walk along a text comes to. -/
def wayTo (text : List Char) : Path := along (startOf text) (piecesOf text)

theorem isStart_root : isStart ⟨[Path.slash]⟩ = false := by decide +kernel

theorem onWay_start (text : List Char) : OnWay (startOf text) := by
  rcases start_cases text with ⟨_, hstart, _⟩ | ⟨_, hstart, _⟩
  · rw [hstart]
    exact ⟨⟨nofun, fun h => by simp [isStart_root] at h⟩, by decide +kernel⟩
  · rw [hstart]
    exact ⟨⟨nofun, fun _ => rfl⟩, by decide +kernel⟩

/-- The directory has a slash in front, or a walk from the start leaves it. -/
def Reached (text : List Char) : Prop := text.head? ≠ some '/' → Leaves (text.splitOn '/')

instance (text : List Char) : Decidable (Reached text) := inferInstanceAs (Decidable (_ → _))

section

variable {dir : String}

theorem leaves_of_start {text : List Char} (h : Reached text) :
    isStart (startOf text) = true → Leaves (piecesOf text) := by
  rcases start_cases text with ⟨_, hstart, _⟩ | ⟨hhead, _, hpieces⟩
  · intro hroot
    rw [hstart, isStart_root] at hroot
    cases hroot
  · intro _
    rw [← hpieces]
    exact h hhead

theorem onWay_wayTo {text : List Char} (h : Reached text) : OnWay (wayTo text) :=
  onWay_along (onWay_start text) (fun _ => slash_not_mem_piecesOf) (leaves_of_start h)

theorem pieces_ofString (dir : String) :
    (Path.ofString dir).pieces = (dir.toList.splitOn '/').map nameOf := Path.pieces_ofString dir

/-- The walk starts where the path does and takes its steps. -/
theorem sameWay_wayTo (h : Reached dir.toList) :
    SameWay (wayTo dir.toList) (Path.ofString dir) := by
  rcases along_steps (onWay_start dir.toList) (fun _ => slash_not_mem_piecesOf)
    (leaves_of_start h) with ⟨habsolute, hsteps⟩
  have hpieces := pieces_ofString dir
  rw [SameWay, wayTo, habsolute, hsteps, Path.steps, Path.steps, hpieces, Bool.eq_iff_iff,
    isAbsolute_ofString]
  rcases start_cases dir.toList with ⟨hhead, hstart, hsplit⟩ | ⟨hhead, hstart, hsplit⟩
  · rw [hstart, hsplit]
    exact ⟨by simp [hhead, Path.isAbsolute], rfl⟩
  · have hrelative : Path.isAbsolute ⟨[Path.dot]⟩ = false := rfl
    rw [hstart, hsplit, hrelative]
    exact ⟨by simp [hhead], rfl⟩

/-! ## Nothing but what the text says -/

open List (Sublist)

variable {base : Path} {name : Name}

theorem child_sublist (hslash : Path.slash ∉ name) :
    Sublist (childPath base name).bytes (base.bytes ++ Path.slash :: name) := by
  cases hstart : isStart base with
  | true =>
    have hname : Sublist name (Path.slash :: name) := List.sublist_cons_self _ _
    rw [childPath, if_pos hstart]
    exact hname.trans (List.sublist_append_right _ _)
  | false =>
    rw [childPath_of_not_start hstart]
    rcases join_bytes base hslash with hbytes | hbytes
    · rw [hbytes]
      exact (List.Sublist.refl _).append (List.sublist_cons_self _ _)
    · exact hbytes ▸ List.Sublist.refl _

theorem along_sublist {pieces : List (List Char)} (hslash : ∀ piece ∈ pieces, '/' ∉ piece)
    {bytes : List UInt8} (hbase : Sublist base.bytes bytes) :
    Sublist (along base pieces).bytes
      (bytes ++ (pieces.map nameOf).flatMap (Path.slash :: ·)) := by
  induction pieces generalizing base bytes with
  | nil => simpa [along] using hbase
  | cons piece rest ih =>
    rcases List.forall_mem_cons.1 hslash with ⟨hpiece, hrest⟩
    have hchild : Sublist (childPath base (nameOf piece)).bytes
        (bytes ++ Path.slash :: nameOf piece) :=
      (child_sublist (slash_not_mem_nameOf hpiece)).trans (hbase.append (List.Sublist.refl _))
    have hmore := ih hrest hchild
    rw [List.map_cons, List.flatMap_cons, ← List.append_assoc]
    exact hmore

theorem piecesOf_ne_nil (text : List Char) : piecesOf text ≠ [] := by
  rw [piecesOf]
  cases text with
  | nil => simp
  | cons c rest =>
    by_cases hc : c = '/'
    · simp [hc, List.splitOn_cons_eq_if_modifyHead]
    · simp [hc]

theorem childPath_root (hslash : Path.slash ∉ name) :
    childPath ⟨[Path.slash]⟩ name = ⟨Path.slash :: name⟩ := by
  rw [childPath_of_not_start isStart_root, Path.join_eq _ (Path.isAbsolute_name hslash)]
  rfl

/-- The walk spells nothing that the text does not say. -/
theorem wayTo_sublist (dir : String) :
    Sublist (wayTo dir.toList).bytes (Path.ofString dir).bytes := by
  have hpieces : (Path.ofString dir).bytes.splitOn Path.slash =
      (dir.toList.splitOn '/').map nameOf := pieces_ofString dir
  have hslash : ∀ piece ∈ piecesOf dir.toList, '/' ∉ piece := fun _ => slash_not_mem_piecesOf
  rw [wayTo]
  cases hfirst : piecesOf dir.toList with
  | nil => exact absurd hfirst (piecesOf_ne_nil dir.toList)
  | cons first more =>
  rw [hfirst] at hslash
  rcases List.forall_mem_cons.1 hslash with ⟨hname, hmore⟩
  rcases start_cases dir.toList with ⟨_, hstart, hsplit⟩ | ⟨_, hstart, hsplit⟩
  · have hway : along ⟨[Path.slash]⟩ (first :: more) = along ⟨Path.slash :: nameOf first⟩ more :=
      congrArg (along · more) (childPath_root (slash_not_mem_nameOf hname))
    rw [hsplit, hfirst] at hpieces
    rw [hstart, hway, eq_of_splitOn hpieces]
    exact along_sublist hmore (List.Sublist.refl _)
  · have hway : along ⟨[Path.dot]⟩ (first :: more) = along ⟨nameOf first⟩ more := rfl
    rw [hsplit, hfirst] at hpieces
    rw [hstart, hway, eq_of_splitOn hpieces]
    exact along_sublist hmore (List.Sublist.refl _)

/-- An empty name below a path puts a slash at its end. -/
theorem ends_of_empty_child (h : (childPath base []).bytes ≠ []) :
    (childPath base []).bytes.getLast? = some Path.slash := by
  cases hstart : isStart base with
  | true =>
    rw [childPath, if_pos hstart] at h
    exact absurd rfl h
  | false =>
    have hempty : Path.isAbsolute ⟨[]⟩ = false := rfl
    rw [childPath_of_not_start hstart, Path.join_eq base hempty] at h ⊢
    by_cases hslash : (base.bytes.isEmpty || base.bytes.getLast? == some Path.slash) = true
    · have hsome : base.bytes ≠ [] := by simpa [hslash] using h
      rw [if_pos hslash]
      simpa [hsome] using hslash
    · rw [if_neg hslash]
      exact List.getLast?_concat

/-- A walk along a text with a slash at its end comes to a path with a slash at its end. -/
theorem wayTo_ends {dir : String} (h : OnWay (wayTo dir.toList))
    (hends : (Path.ofString dir).bytes.getLast? = some Path.slash) :
    (wayTo dir.toList).bytes.getLast? = some Path.slash := by
  have hpieces : (Path.ofString dir).bytes.splitOn Path.slash =
      (dir.toList.splitOn '/').map nameOf := pieces_ofString dir
  have hlast : (dir.toList.splitOn '/').getLast? = some [] := by
    rcases List.getLast?_eq_some_iff.1 hends with ⟨before, hbytes⟩
    have hsplit : ((dir.toList.splitOn '/').map nameOf).getLast? = some [] := by
      rw [← hpieces, hbytes, List.splitOn_append_cons_self]
      simp
    rw [List.getLast?_map, Option.map_eq_some_iff] at hsplit
    rcases hsplit with ⟨piece, hpiece, hempty⟩
    rw [hpiece, eq_nil_of_nameOf hempty]
  have hmore : (piecesOf dir.toList).getLast? = some [] := by
    rcases start_cases dir.toList with ⟨_, _, hsplit⟩ | ⟨_, _, hsplit⟩
    · rw [hsplit, List.getLast?_cons] at hlast
      cases hfinal : (piecesOf dir.toList).getLast? with
      | none => exact absurd (List.getLast?_eq_none_iff.1 hfinal) (piecesOf_ne_nil dir.toList)
      | some final => simpa [hfinal] using hlast
    · rwa [hsplit] at hlast
  rcases List.getLast?_eq_some_iff.1 hmore with ⟨before, hbefore⟩
  have hway : wayTo dir.toList = childPath (along (startOf dir.toList) before) [] := by
    rw [wayTo, hbefore, along, List.foldl_append]
    rfl
  rw [hway]
  exact ends_of_empty_child (hway ▸ h.some)

/-- A name below the directory is spelled with nothing that its path does not say. -/
theorem child_wayTo_sublist {dir : String} (h : OnWay (wayTo dir.toList))
    (hslash : Path.slash ∉ name) :
    Sublist (childPath (wayTo dir.toList) name).bytes
      (Path.ofString dir / (⟨name⟩ : Path)).bytes := by
  have hway := wayTo_sublist dir
  have hname : Path.isAbsolute ⟨name⟩ = false := Path.isAbsolute_name hslash
  have hdir : (Path.ofString dir).bytes.isEmpty = false := by
    cases hbytes : (Path.ofString dir).bytes with
    | nil =>
      rw [hbytes] at hway
      exact absurd (List.sublist_nil.1 hway) h.some
    | cons => rfl
  rw [Path.join_eq _ hname, hdir, Bool.false_or]
  split
  · -- the slash at the end of the directory is there in both
    rename_i hends
    have hends := wayTo_ends h (beq_iff_eq.1 hends)
    cases hstart : isStart (wayTo dir.toList) with
    | true =>
      rw [h.start hstart] at hends
      exact absurd hends (by decide)
    | false =>
      rw [childPath_of_not_start hstart, Path.join_eq _ hname]
      simpa [hends] using hway
  · exact (child_sublist hslash).trans (hway.append (List.Sublist.refl _))

section

variable {fs : FileSystem} {dir : String}

theorem sameWay_child (hreached : Reached dir.toList) (hslash : Path.slash ∉ name) :
    SameWay (childPath (wayTo dir.toList) name) (Path.ofString dir / (⟨name⟩ : Path)) := by
  have hway := onWay_wayTo hreached
  have hname : Path.isAbsolute ⟨name⟩ = false := Path.isAbsolute_name hslash
  rcases sameWay_wayTo hreached with ⟨habsolute, hsteps⟩
  constructor
  · rw [isAbsolute_child _ hslash, Path.isAbsolute_join _ hname, habsolute]
  · rw [steps_child _ hslash, Path.steps_join _ hname, hsteps]

/-- Below the directory that the walk comes to lies a file: then the text names it too. -/
theorem resolve_wayTo (hreached : Reached dir.toList) (hfits : Fits (Path.ofString dir))
    (hslash : Path.slash ∉ name) (hname : name ≠ [])
    (hfile : fs.isFile (childPath (wayTo dir.toList) name) = true) :
    fs.resolve .target (Path.ofString dir) = fs.resolve .target (wayTo dir.toList) := by
  rcases FileSystem.isFile_iff.1 hfile with ⟨loc, _, _, hresolve, _⟩
  rcases resolve_of_child (onWay_wayTo hreached).toWalked hslash hresolve with
    ⟨parent, hparent, hopen, _⟩
  rw [hparent]
  exact FileSystem.resolve_of_sameWay hparent (hopen.searchable hname) (sameWay_wayTo hreached)
    hfits

/-- What the walk finds under a name is what the text finds under it. -/
theorem isFile_wayTo (hreached : Reached dir.toList) (hdir : (Path.ofString dir).bytes ≠ [])
    (hslash : Path.slash ∉ name) (hname : name ≠ [])
    (hfits : Fits (Path.ofString dir / (⟨name⟩ : Path))) :
    fs.isFile (childPath (wayTo dir.toList) name) = true ↔
      fs.isFile (Path.ofString dir / (⟨name⟩ : Path)) = true := by
  have hway := onWay_wayTo hreached
  have hsublist := child_wayTo_sublist hway hslash
  rcases pieces_child hway.toWalked hslash with ⟨before, hpieces, hsteps⟩
  rcases Path.pieces_join hdir hslash with ⟨before', hpieces', hsteps', _⟩
  have hsame : (before.filter fun name => !isIdle name) =
      before'.filter fun name => !isIdle name := by
    rw [hsteps, hsteps', (sameWay_wayTo hreached).2]
  have hchild : Fits (childPath (wayTo dir.toList) name) := by
    refine FileSystem.fits_of_sublist hsublist (fun hnil => ?_) hfits
    have hempty : (childPath (wayTo dir.toList) name).pieces = [[]] := by
      rw [Path.pieces, hnil]
      rfl
    rw [hempty] at hpieces
    have hlast := congrArg List.getLast? hpieces
    rw [List.getLast?_concat] at hlast
    exact hname (by simpa using hlast.symm)
  exact FileSystem.isFile_of_sameEnd (sameWay_child hreached hslash).1 hpieces hpieces' hsame
    hname hchild hfits

end

end

end Glob

/-! ## The selection -/

namespace ArtifactGlob

open FileSystem (isIdle Fits IsEntry SameWay)
open Glob

variable {g : ArtifactGlob} {dir : String}

/-- The selection is what the walk along the directory leads to. -/
theorem select_eq (hpattern : g.pattern ≠ "") (hslash : '/' ∉ g.pattern.toList)
    (htree : g.pattern ≠ "**") (hdir : dir ≠ "") (fs : FileSystem) :
    ∃ last segments selection, Takes g.pattern.toList last ∧
      StandAll (piecesOf dir.toList) segments ∧
      g.select fs (Path.ofString dir) = .ok selection ∧
      selection.files =
        filesAmong fs (expand fs false (segments ++ [last]) (startOf dir.toList)) := by
  have hpattern : g.pattern.toList ≠ [] := by simpa using hpattern
  have htree : g.pattern.toList ≠ ['*', '*'] := fun h => htree (String.toList_inj.1 h)
  have hdir : dir.toList ≠ [] := by simpa using hdir
  cases hcompile : compile g.pattern.toList with
  | error fault => simpa [hcompile, Except.isOk, Except.toBool] using g.wellFormed
  | ok ts =>
    rcases takes_compile hcompile hslash htree with ⟨last, hlast, hnone, htakes⟩
    rcases search_below hdir hpattern hslash hlast hnone hcompile with
      ⟨segments, hstands, hsearch⟩
    have hselect : g.select fs (Path.ofString dir) = .ok (choose fs (Search.run fs
        ⟨startOf dir.toList, segments ++ [last], false⟩)) := by
      simp only [ArtifactGlob.select, ArtifactGlob.below, Path.text_ofString, hsearch]
    exact ⟨last, segments, _, htakes, hstands, hselect,
      choose_files_run fs (isSlashless_search hsearch)⟩

/-- Every directory that a walk has to list can be listed: the last one, and those in which a piece
with characters that are special in patterns is looked for. -/
structure Unhindered (fs : FileSystem) (dir : List Char) : Prop where
  way : ListableAlong fs (startOf dir) (piecesOf dir)
  directory : fs.Listable (wayTo dir)

/-- Where nothing is refused, everything can be listed. -/
theorem unhindered_of_free {fs : FileSystem} (h : ∀ loc access, fs.refusal loc access = none)
    (dir : List Char) : Unhindered fs dir := by
  have hlist : ∀ p, fs.Listable p := fun _ loc _ _ => h loc .read
  refine ⟨?_, hlist _⟩
  generalize startOf dir = start
  induction piecesOf dir generalizing start with
  | nil => trivial
  | cons piece rest ih => exact ⟨fun _ => hlist _, ih _⟩

/-- Names of entries of a directory that a pattern matches and that lead to regular files. -/
structure Lists (fs : FileSystem) (dir : String) (pattern : List Char) (base : Path)
    (names : List Name) : Prop where
  /-- The directory is spelled in another way, which differs only in what says nothing. -/
  sameWay : SameWay base (Path.ofString dir)
  /-- In the order of their bytes, none twice. -/
  ascending : names.Pairwise (· < ·)
  below : ∀ name ∈ names, SameWay (childPath base name) (Path.ofString dir / (⟨name⟩ : Path))
  sound : ∀ name ∈ names, fs.HasEntry base name ∧ NameMatches pattern name ∧
    fs.isFile (childPath base name) = true
  /-- If what has to be listed can be, there are no others. -/
  complete : Unhindered fs dir.toList → ∀ name, fs.HasEntry base name → NameMatches pattern name →
    fs.isFile (childPath base name) = true → name ∈ names
  /-- As the directory was spelled, this says the same of every name that can be looked up. -/
  mem_iff : Unhindered fs dir.toList → ∀ name, Fits (Path.ofString dir / (⟨name⟩ : Path)) →
    (name ∈ names ↔ fs.HasEntry (Path.ofString dir) name ∧ NameMatches pattern name ∧
      fs.isFile (Path.ofString dir / (⟨name⟩ : Path)) = true)

theorem isName_of_hasEntry {fs : FileSystem} {p : Path} {name : Name} (h : fs.HasEntry p name) :
    Path.slash ∉ name ∧ IsEntry name := by
  rcases h with ⟨loc, _, hname⟩
  rcases FileSystem.mem_names_iff.1 hname with ⟨node, hnode⟩
  exact FileSystem.isName_of_isProperName (FileSystem.parent_of_node? hnode).1

/-- What is said of the directory as the walk spells it holds as the text spells it. -/
theorem Lists.of_way {fs : FileSystem} {pattern : List Char} {names : List Name} (hdir : dir ≠ "")
    (hreached : Reached dir.toList) (hascending : names.Pairwise (· < ·))
    (hsound : ∀ name ∈ names, fs.HasEntry (wayTo dir.toList) name ∧ NameMatches pattern name ∧
      fs.isFile (childPath (wayTo dir.toList) name) = true)
    (hcomplete : Unhindered fs dir.toList → ∀ name, fs.HasEntry (wayTo dir.toList) name →
      NameMatches pattern name → fs.isFile (childPath (wayTo dir.toList) name) = true →
      name ∈ names) : Lists fs dir pattern (wayTo dir.toList) names where
  sameWay := sameWay_wayTo hreached
  ascending := hascending
  below name hname := sameWay_child hreached (isName_of_hasEntry (hsound name hname).1).1
  sound := hsound
  complete := hcomplete
  mem_iff hopen name hfits := by
    have hsome : (Path.ofString dir).bytes ≠ [] := by
      intro hnil
      have hempty : nameOf dir.toList = [] := by rwa [nameOf, String.ofList_toList]
      exact hdir (by simpa using eq_nil_of_nameOf hempty)
    -- a name that is an entry in either spelling, and leads to a file, is one in the other
    have hsame : Path.slash ∉ name ∧ IsEntry name →
        fs.isFile (childPath (wayTo dir.toList) name) = true →
        (fs.HasEntry (wayTo dir.toList) name ↔ fs.HasEntry (Path.ofString dir) name) := by
      intro hname hfile
      rw [FileSystem.HasEntry, FileSystem.HasEntry, resolve_wayTo hreached
        (fits_of_join hsome hname.1 hfits) hname.1 (FileSystem.ne_nil_of_not_idle hname.2.1) hfile]
    have hfile : Path.slash ∉ name ∧ IsEntry name →
        (fs.isFile (childPath (wayTo dir.toList) name) = true ↔
          fs.isFile (Path.ofString dir / (⟨name⟩ : Path)) = true) := fun hname =>
      isFile_wayTo hreached hsome hname.1 (FileSystem.ne_nil_of_not_idle hname.2.1) hfits
    constructor
    · intro hmem
      rcases hsound name hmem with ⟨hentry, hmatches, hregular⟩
      have hname := isName_of_hasEntry hentry
      exact ⟨(hsame hname hregular).1 hentry, hmatches, (hfile hname).1 hregular⟩
    · rintro ⟨hentry, hmatches, hregular⟩
      have hname := isName_of_hasEntry hentry
      have hregular := (hfile hname).2 hregular
      exact hcomplete hopen name ((hsame hname hregular).2 hentry) hmatches hregular

/-- A pattern for one name selects, below a directory, from the entries of the directory. -/
theorem select_in_directory (hpattern : g.pattern ≠ "") (hslash : '/' ∉ g.pattern.toList)
    (htree : g.pattern ≠ "**") (hdir : dir ≠ "") (hreached : Reached dir.toList)
    (fs : FileSystem) :
    ∃ selection names, g.select fs (Path.ofString dir) = .ok selection ∧
      selection.files = names.map (childPath (wayTo dir.toList)) ∧
      Lists fs dir g.pattern.toList (wayTo dir.toList) names := by
  rcases select_eq hpattern hslash htree hdir fs with
    ⟨last, segments, selection, htakes, hstands, hselect, hfiles⟩
  have hway : OnWay (wayTo dir.toList) := onWay_wayTo hreached
  rcases @expand_descent fs _ _ (onWay_start dir.toList) _ hstands
    (fun _ => slash_not_mem_piecesOf) (leaves_of_start hreached) [last] with
    hfound | ⟨hnothing, hnone⟩
  · refine ⟨selection, namesOf fs last (wayTo dir.toList), hselect, ?_, ?_⟩
    · rw [hfiles, hfound]
      exact filesAmong_last hway fs hslash htakes
    · exact .of_way hdir hreached (ascending_namesOf fs last _)
        (fun _ => namesOf_sound hway hslash htakes)
        (fun hopen _ => namesOf_complete htakes hopen.directory)
  · refine ⟨selection, [], hselect, ?_, ?_⟩
    · rw [hfiles, hnothing, filesAmong_nil, List.map_nil]
    · -- where all could be listed, there is no directory that has entries
      refine .of_way hdir hreached .nil nofun fun hopen name hentry _ _ => ?_
      rcases hentry with ⟨loc, hresolve, hname⟩
      rcases FileSystem.mem_names_iff.1 hname with ⟨node, hnode⟩
      have hdirectory : fs.isDirectory (wayTo dir.toList) = true :=
        FileSystem.isDirectory_iff.2 ⟨loc, hresolve, (FileSystem.parent_of_node? hnode).2⟩
      rw [wayTo, hnone hopen.way] at hdirectory
      cases hdirectory

variable {σ : Type}

/--
Unless it is a relative directory whose dots an empty name follows, a pattern for one name finds in
a directory regular files with matching names, in the order of the names, and all of them if what
has to be listed can be.  What cannot be listed is only logged.
-/
theorem files_in_directory (hpattern : g.pattern ≠ "") (hslash : '/' ∉ g.pattern.toList)
    (htree : g.pattern ≠ "**") (hdir : dir ≠ "") (hreached : Reached dir.toList) (w : World σ) :
    let found := (g.matchingFiles (Path.ofString dir) : Attempt σ (List Path)).run.run w
    ∃ base names, found.1 = .ok (names.map (childPath base)) ∧ Quiet w found.2 ∧
      Lists w.files dir g.pattern.toList base names := by
  intro found
  rcases matchingFiles_selects g (Path.ofString dir) w with ⟨hquiet, hfound⟩
  rcases select_in_directory hpattern hslash htree hdir hreached w.files with
    ⟨selection, names, hselect, hfiles, hlists⟩
  rw [hselect] at hfound
  exact ⟨_, names, hfound.trans (congrArg Except.ok hfiles), hquiet, hlists⟩

/-- A pattern for the names of bootloaders. -/
def bootloaderNames : ArtifactGlob := ⟨"*.efi", by decide +kernel⟩

/-- It takes every name with that ending. -/
theorem matches_bootloaderNames (stem : List Char) :
    Matches bootloaderNames.pattern.toList (stem ++ ['.', 'e', 'f', 'i']) := by
  have hpattern : bootloaderNames.pattern.toList = '*' :: ['.', 'e', 'f', 'i'] := by
    decide +kernel
  have hend : Matches ['.', 'e', 'f', 'i'] ['.', 'e', 'f', 'i'] :=
    (matches_plain (by decide) _).2 rfl
  rw [hpattern]
  exact .run hend

/-- Dots and repeated slashes on the way to a directory make no difference. -/
theorem files_in_directory_small :
    ∃ base names,
      ((bootloaderNames.matchingFiles (Path.ofString "./boot//efi/boot") :
          Attempt Nat (List Path)).run.run ⟨SmallBoot.files, 0, []⟩).1 =
        .ok (names.map (childPath base)) ∧
      Lists SmallBoot.files "./boot//efi/boot" bootloaderNames.pattern.toList base names ∧
      Unhindered SmallBoot.files "./boot//efi/boot".toList ∧
      Utf8.encode "bootx64.efi" ∈ names := by
  have hslash : '/' ∉ bootloaderNames.pattern.toList := by decide +kernel
  have hreached : Reached "./boot//efi/boot".toList := by decide +kernel
  rcases files_in_directory (by decide +kernel) hslash (by decide +kernel) (by decide) hreached
    ⟨SmallBoot.files, 0, []⟩ with ⟨base, names, hrun, _, hlists⟩
  have hopen : Unhindered SmallBoot.files "./boot//efi/boot".toList :=
    unhindered_of_free (fun _ _ => rfl) _
  have hmatches : NameMatches bootloaderNames.pattern.toList (Utf8.encode "bootx64.efi") :=
    ⟨"bootx64.efi", by decide +kernel, matches_bootloaderNames ['b', 'o', 'o', 't', 'x', '6', '4']⟩
  have hfits : Fits (Path.ofString "./boot//efi/boot" / Path.ofString "bootx64.efi") :=
    ⟨by decide +kernel, by decide +kernel, by decide +kernel⟩
  have hentry : SmallBoot.files.HasEntry (Path.ofString "./boot//efi/boot")
      (Utf8.encode "bootx64.efi") :=
    (FileSystem.mem_namesAt_iff fun _ _ _ => rfl).1 (by decide +kernel)
  have hmem := (hlists.mem_iff hopen (Utf8.encode "bootx64.efi") hfits).2
    ⟨hentry, hmatches, by decide +kernel⟩
  exact ⟨base, names, hrun, hlists, hopen, hmem⟩

/-! ## A directory that is not found -/

/-- An empty name leads nowhere from where a relative walk starts. -/
theorem expand_of_not_leaves {fs : FileSystem} {pieces : List (List Char)}
    {segments : List Segment} (hstands : StandAll pieces segments) (h : ¬Leaves pieces)
    (rest : List Segment) : expand fs false (segments ++ rest) ⟨[Path.dot]⟩ = [] := by
  induction hstands with
  | nil => exact absurd (by decide) h
  | @cons piece segment pieces segments hpiece _ ih =>
    by_cases hdot : piece = ['.']
    · -- a dot stays at the start
      subst hdot
      rw [leaves_cons, if_pos rfl] at h
      cases hpiece with
      | literal =>
        have hstart : childPath ⟨[Path.dot]⟩ (nameOf ['.']) = ⟨[Path.dot]⟩ := by decide +kernel
        rw [List.cons_append, expand, ← nameOf, hstart, ih h]
        simp
      | wild _ hname _ =>
        have hidle : isIdle (nameOf ['.']) = true := by decide +kernel
        rw [hname.1] at hidle
        cases hidle
    · rw [leaves_cons, if_neg hdot, Decidable.not_not] at h
      subst h
      cases hpiece with
      | literal =>
        have habsent : isThere fs (.lookUp fs ⟨[Path.dot]⟩) [] ⟨[]⟩ = false := rfl
        have hstart : childPath ⟨[Path.dot]⟩ (nameOf []) = ⟨[]⟩ := by decide +kernel
        rw [List.cons_append, expand, ← nameOf, hstart, habsent]
        simp
      | wild _ hname _ =>
        have hidle : isIdle (nameOf []) = true := by decide +kernel
        rw [hname.1] at hidle
        cases hidle

/-- Below a relative directory whose dots an empty name follows, nothing is found. -/
theorem no_files_after_empty_name (hpattern : g.pattern ≠ "") (hslash : '/' ∉ g.pattern.toList)
    (htree : g.pattern ≠ "**") (hdir : dir ≠ "") (h : ¬Reached dir.toList) (w : World σ) :
    ((g.matchingFiles (Path.ofString dir) : Attempt σ (List Path)).run.run w).1 = .ok [] := by
  rcases select_eq hpattern hslash htree hdir w.files with
    ⟨last, segments, selection, _, hstands, hselect, hfiles⟩
  rw [Reached, Classical.not_imp] at h
  rcases h with ⟨hhead, hleaves⟩
  rcases start_cases dir.toList with ⟨hroot, _⟩ | ⟨_, hstart, hpieces⟩
  · exact absurd hroot hhead
  · rw [hpieces] at hleaves
    rw [hstart, expand_of_not_leaves hstands hleaves, filesAmong_nil] at hfiles
    rw [(matchingFiles_selects g _ w).2, hselect]
    exact congrArg Except.ok hfiles

/-- One regular file in the directory of a run. -/
def oneFile : FileSystem where
  nodes := [(SmallBoot.place ["a.efi"], .file 0o644 [])]
  cwd := []
  distinct := by decide +kernel
  hangs := by decide +kernel
  proper := by decide +kernel

/-- A slash after the dot hides a regular file whose name matches. -/
theorem no_files_in_dot_slash :
    Utf8.encode "a.efi" ∈ oneFile.namesAt (Path.ofString "./") ∧
      NameMatches bootloaderNames.pattern.toList (Utf8.encode "a.efi") ∧
      oneFile.isFile (Path.ofString "./" / Path.ofString "a.efi") = true ∧
      ((bootloaderNames.matchingFiles (Path.ofString "./") : Attempt Nat (List Path)).run.run
        ⟨oneFile, 0, []⟩).1 = .ok [] := by
  have hslash : '/' ∉ bootloaderNames.pattern.toList := by decide +kernel
  have hmatches : Matches bootloaderNames.pattern.toList "a.efi".toList :=
    matches_bootloaderNames ['a']
  refine ⟨by decide +kernel, ⟨"a.efi", by decide +kernel, hmatches⟩, by decide +kernel, ?_⟩
  exact no_files_after_empty_name (by decide +kernel) hslash (by decide +kernel) (by decide)
    (by decide +kernel) ⟨oneFile, 0, []⟩

end ArtifactGlob
end BootSigning
