import BootSigning.Proofs.Choice
import BootSigning.Proofs.Runs

/-!
# Components — patterns that can be evaluated

A pattern is read as a whole when it is accepted.  When it is evaluated below a directory, it is
read again with the directory in front of it, and then once more piece by piece between slashes.

* `Readable`: the grammar of patterns, given what their sets may hold;
* `readable_iff_compile`: the reader gets through just these;
* `readable_pieces_iff`: every piece of a readable pattern is readable by itself if and only if no
  set of the pattern holds a slash;
* `ArtifactGlob.select_isOk_iff`: what was accepted can be evaluated below any directory, unless
  one of its sets holds a slash; then it cannot be evaluated below any.
-/

namespace BootSigning
namespace Glob

/-! ## The grammar of patterns -/

/--
The pattern can be read, and `sets` holds of the members of its sets.  `fresh` says that it starts
a component, where two stars may stand.
-/
inductive Readable (sets : List Char → Prop) : Bool → List Char → Prop where
  | nil {fresh : Bool} : Readable sets fresh []
  | char {fresh : Bool} {c : Char} {rest : List Char} (hstar : c ≠ '*') (hset : c ≠ '[')
      (hrest : Readable sets (c == '/') rest) : Readable sets fresh (c :: rest)
  | run {fresh : Bool} {rest : List Char} (hone : rest.head? ≠ some '*')
      (hrest : Readable sets false rest) : Readable sets fresh ('*' :: rest)
  | tree : Readable sets true ['*', '*']
  | trees {rest : List Char} (hrest : Readable sets true rest) :
      Readable sets true ('*' :: '*' :: '/' :: rest)
  | within {fresh : Bool} {first : Char} {more rest : List Char} (hfirst : first ≠ '!')
      (hmore : ']' ∉ more) (hsets : sets (first :: more)) (hrest : Readable sets false rest) :
      Readable sets fresh ('[' :: first :: (more ++ ']' :: rest))
  | without {fresh : Bool} {first : Char} {more rest : List Char} (hmore : ']' ∉ more)
      (hsets : sets (first :: more)) (hrest : Readable sets false rest) :
      Readable sets fresh ('[' :: '!' :: first :: (more ++ ']' :: rest))

/-- Sets may hold anything. -/
def AnySet (_ : List Char) : Prop := True

/-- Sets may hold anything but a slash. -/
def NoSlash (members : List Char) : Prop := '/' ∉ members

theorem Readable.mono {sets sets' : List Char → Prop} (h : ∀ members, sets members → sets' members)
    {fresh : Bool} {pattern : List Char} (hread : Readable sets fresh pattern) :
    Readable sets' fresh pattern := by
  induction hread with
  | nil => exact .nil
  | char hstar hset _ ih => exact .char hstar hset ih
  | run hone _ ih => exact .run hone ih
  | tree => exact .tree
  | trees _ ih => exact .trees ih
  | within hfirst hmore hsets _ ih => exact .within hfirst hmore (h _ hsets) ih
  | without hmore hsets _ ih => exact .without hmore (h _ hsets) ih

/-! ## The reader gets through the grammar -/

/-- A reader between two tokens gets to the end of the pattern. -/
def ReadsThrough (fresh : Bool) (pattern : List Char) : Prop :=
  ∃ ts, Reader.readRest ⟨0, fresh, [], .between⟩ pattern = .ok ts

namespace ReadsThrough

open Reader

variable {fresh : Bool} {c first : Char} {more rest : List Char}

/-- What was read before does not matter. -/
theorem iff_from (position : Nat) (tokens : List Token) :
    ReadsThrough fresh rest ↔
      ∃ ts, readRest ⟨position, fresh, tokens, .between⟩ rest = .ok ts := by
  constructor
  · rintro ⟨ts, h⟩
    exact readRest_alike .between h
  · rintro ⟨ts, h⟩
    exact readRest_alike .between h

theorem char_iff (hstar : c ≠ '*') (hset : c ≠ '[') :
    ReadsThrough fresh (c :: rest) ↔ ReadsThrough (c == '/') rest := by
  have hstep : ∃ token, step ⟨0, fresh, [], .between⟩ c = .ok ⟨1, c == '/', [token], .between⟩ := by
    by_cases hany : c = '?'
    · subst hany
      exact ⟨.any, rfl⟩
    · exact ⟨.char c, by simp [step, begin, advance, hany, hstar, hset]⟩
  rcases hstep with ⟨token, hstep⟩
  rw [ReadsThrough, readRest_cons hstep, iff_from 1 [token]]

theorem run_iff (hone : rest.head? ≠ some '*') :
    ReadsThrough fresh ('*' :: rest) ↔ ReadsThrough false rest := by
  have hstep : step ⟨0, fresh, [], .between⟩ '*' = .ok ⟨1, fresh, [], .stars 1 fresh⟩ := rfl
  have hrun : readRest ⟨1, fresh, [], .stars 1 fresh⟩ rest =
      readRest ⟨1, false, [.run], .between⟩ rest := readRest_run hone
  rw [ReadsThrough, readRest_cons hstep, hrun, iff_from 1 [.run]]

theorem tree_iff : ReadsThrough fresh ['*', '*'] ↔ fresh = true := by
  cases fresh with
  | false => exact ⟨fun h => (by cases h.choose_spec), nofun⟩
  | true => exact ⟨fun _ => rfl, fun _ => ⟨_, rfl⟩⟩

theorem trees_iff :
    ReadsThrough fresh ('*' :: '*' :: '/' :: rest) ↔ fresh = true ∧ ReadsThrough true rest := by
  have hopen : readRest ⟨0, fresh, [], .between⟩ ('*' :: '*' :: '/' :: rest) =
      readRest ⟨2, fresh, [], .stars 2 fresh⟩ ('/' :: rest) := rfl
  rw [ReadsThrough, hopen]
  cases fresh with
  | false =>
    have hfault : step ⟨2, false, [], .stars 2 false⟩ '/' = .error ⟨2 - 3, .partialComponent⟩ := rfl
    rw [readRest_fault hfault]
    exact ⟨fun ⟨_, h⟩ => (by cases h), fun ⟨h, _⟩ => (by cases h)⟩
  | true =>
    have hslash : step ⟨2, true, [], .stars 2 true⟩ '/' = .ok ⟨3, true, [.tree], .between⟩ := rfl
    rw [readRest_cons hslash, ← iff_from 3 [.tree]]
    exact ⟨fun h => ⟨rfl, h⟩, And.right⟩

/-- Two stars before anything but a slash are refused. -/
theorem not_stars (hslash : c ≠ '/') : ¬ReadsThrough fresh ('*' :: '*' :: c :: rest) := by
  rintro ⟨ts, h⟩
  have hopen : readRest ⟨0, fresh, [], .between⟩ ('*' :: '*' :: c :: rest) =
      readRest ⟨2, fresh, [], .stars 2 fresh⟩ (c :: rest) := rfl
  rw [hopen] at h
  exact readRest_two_stars hslash h

theorem within_iff (hfirst : first ≠ '!') (hmore : ']' ∉ more) :
    ReadsThrough fresh ('[' :: first :: (more ++ ']' :: rest)) ↔ ReadsThrough false rest := by
  have hopen : step ⟨0, fresh, [], .between⟩ '[' = .ok ⟨1, false, [], .bracket 0⟩ := rfl
  have hmember : step ⟨1, false, [], .bracket 0⟩ first =
      .ok ⟨2, false, [], .set 0 false [first]⟩ := by
    simp [step, advance, hfirst]
  have hset : ∃ position tokens, readRest ⟨2, false, [], .set 0 false [first]⟩
      (more ++ ']' :: rest) = readRest ⟨position, false, tokens, .between⟩ rest :=
    readRest_closed (List.cons_ne_nil first []) hmore rest
  rcases hset with ⟨position, tokens, hclosed⟩
  rw [ReadsThrough, readRest_cons hopen, readRest_cons hmember, hclosed, iff_from position tokens]

theorem without_iff (hmore : ']' ∉ more) :
    ReadsThrough fresh ('[' :: '!' :: first :: (more ++ ']' :: rest)) ↔
      ReadsThrough false rest := by
  have hopen : step ⟨0, fresh, [], .between⟩ '[' = .ok ⟨1, false, [], .bracket 0⟩ := rfl
  have hnot : step ⟨1, false, [], .bracket 0⟩ '!' = .ok ⟨2, false, [], .set 0 true []⟩ := rfl
  have hmember : step ⟨2, false, [], .set 0 true []⟩ first =
      .ok ⟨3, false, [], .set 0 true [first]⟩ := by
    simp [step, advance]
  have hset : ∃ position tokens, readRest ⟨3, false, [], .set 0 true [first]⟩
      (more ++ ']' :: rest) = readRest ⟨position, false, tokens, .between⟩ rest :=
    readRest_closed (List.cons_ne_nil first []) hmore rest
  rcases hset with ⟨position, tokens, hclosed⟩
  rw [ReadsThrough, readRest_cons hopen, readRest_cons hnot, readRest_cons hmember, hclosed,
    iff_from position tokens]

/-- After an opening bracket there are a member, perhaps more, and a closing one. -/
theorem closes (h : ReadsThrough fresh ('[' :: rest)) :
    ∃ first more after, ']' ∉ more ∧
      (first ≠ '!' ∧ rest = first :: (more ++ ']' :: after) ∨
        rest = '!' :: first :: (more ++ ']' :: after)) := by
  rcases h with ⟨ts, h⟩
  have hopen : step ⟨0, fresh, [], .between⟩ '[' = .ok ⟨1, false, [], .bracket 0⟩ := rfl
  rw [readRest_cons hopen] at h
  rcases readRest_bracket h with ⟨first, more, after, _, hmore, ⟨hfirst, hrest, _⟩ | ⟨hrest, _⟩⟩
  · exact ⟨first, more, after, hmore, .inl ⟨hfirst, hrest⟩⟩
  · exact ⟨first, more, after, hmore, .inr hrest⟩

end ReadsThrough

theorem Readable.readsThrough {sets : List Char → Prop} {fresh : Bool} {pattern : List Char}
    (h : Readable sets fresh pattern) : ReadsThrough fresh pattern := by
  induction h with
  | nil => exact ⟨[], rfl⟩
  | char hstar hset _ ih => exact (ReadsThrough.char_iff hstar hset).2 ih
  | run hone _ ih => exact (ReadsThrough.run_iff hone).2 ih
  | tree => exact ReadsThrough.tree_iff.2 rfl
  | trees _ ih => exact ReadsThrough.trees_iff.2 ⟨rfl, ih⟩
  | within hfirst hmore _ _ ih => exact (ReadsThrough.within_iff hfirst hmore).2 ih
  | without hmore _ _ ih => exact (ReadsThrough.without_iff hmore).2 ih

/-- The reader gets through nothing but the grammar. -/
theorem readable_of_readsThrough (length : Nat) : ∀ {fresh : Bool} {pattern : List Char},
    pattern.length ≤ length → ReadsThrough fresh pattern → Readable AnySet fresh pattern := by
  -- A set is read in one go, so the induction is on the length.
  induction length with
  | zero =>
    intro fresh pattern hlength _
    rw [List.length_eq_zero_iff.1 (Nat.le_zero.1 hlength)]
    exact .nil
  | succ length ih =>
    intro fresh pattern hlength h
    cases pattern with
    | nil => exact .nil
    | cons c rest =>
      have hshort : rest.length ≤ length := Nat.le_of_succ_le_succ hlength
      by_cases hstar : c = '*'
      · subst hstar
        by_cases hone : rest.head? = some '*'
        · rcases List.head?_eq_some_iff.1 hone with ⟨others, rfl⟩
          cases others with
          | nil =>
            rw [ReadsThrough.tree_iff] at h
            exact h ▸ .tree
          | cons next others =>
            by_cases hslash : next = '/'
            · subst hslash
              rcases ReadsThrough.trees_iff.1 h with ⟨rfl, hothers⟩
              simp only [List.length_cons] at hshort
              exact .trees (ih (by omega) hothers)
            · exact absurd h (ReadsThrough.not_stars hslash)
        · exact .run hone (ih hshort ((ReadsThrough.run_iff hone).1 h))
      by_cases hset : c = '['
      · subst hset
        rcases h.closes with ⟨first, more, after, hmore, ⟨hfirst, rfl⟩ | rfl⟩
        · simp only [List.length_cons, List.length_append] at hshort
          exact .within hfirst hmore trivial
            (ih (by omega) ((ReadsThrough.within_iff hfirst hmore).1 h))
        · simp only [List.length_cons, List.length_append] at hshort
          exact .without hmore trivial (ih (by omega) ((ReadsThrough.without_iff hmore).1 h))
      · exact .char hstar hset (ih hshort ((ReadsThrough.char_iff hstar hset).1 h))

/-- A pattern is read without fault if and only if it is of the grammar. -/
theorem compile_isOk_iff {pattern : List Char} :
    (∃ ts, compile pattern = .ok ts) ↔ Readable AnySet true pattern :=
  ⟨fun h => readable_of_readsThrough _ (Nat.le_refl _) h, Readable.readsThrough⟩

/-! ## Piece by piece -/

/-- Every piece between slashes can be read by itself; the first may go on with a component. -/
def PiecesRead (fresh : Bool) (pattern : List Char) : Prop :=
  ∃ head tail, pattern.splitOn '/' = head :: tail ∧ ReadsThrough fresh head ∧
    ∀ piece ∈ tail, ReadsThrough true piece

namespace PiecesRead

variable {fresh fresh' : Bool} {before rest : List Char}

theorem true_iff {pattern : List Char} :
    PiecesRead true pattern ↔ ∀ piece ∈ pattern.splitOn '/', ReadsThrough true piece := by
  constructor
  · rintro ⟨head, tail, hsplit, hhead, htail⟩
    rw [hsplit]
    exact List.forall_mem_cons.2 ⟨hhead, htail⟩
  · intro h
    cases hsplit : pattern.splitOn '/' with
    | nil => exact absurd hsplit (List.splitOn_ne_nil '/' pattern)
    | cons head tail =>
      rw [hsplit] at h
      exact ⟨head, tail, hsplit, List.forall_mem_cons.1 h⟩

/-- A slash ends a piece. -/
theorem cut_iff (hslash : '/' ∉ before) :
    PiecesRead fresh (before ++ '/' :: rest) ↔ ReadsThrough fresh before ∧ PiecesRead true rest := by
  have hsplit : (before ++ '/' :: rest).splitOn '/' = before :: rest.splitOn '/' := by
    rw [List.splitOn_append_cons_self, List.splitOn_eq_singleton hslash]
    rfl
  rw [true_iff, PiecesRead, hsplit]
  constructor
  · rintro ⟨head, tail, hpieces, hhead, htail⟩
    cases hpieces
    exact ⟨hhead, htail⟩
  · rintro ⟨hhead, htail⟩
    exact ⟨before, _, rfl, hhead, htail⟩

/-- What stands before the first slash is part of the first piece. -/
theorem append_iff (hslash : '/' ∉ before)
    (h : ∀ head tail, rest.splitOn '/' = head :: tail →
      (ReadsThrough fresh (before ++ head) ↔ ReadsThrough fresh' head)) :
    PiecesRead fresh (before ++ rest) ↔ PiecesRead fresh' rest := by
  rw [PiecesRead, PiecesRead, Utf8.splitOn_append hslash]
  cases hsplit : rest.splitOn '/' with
  | nil => exact absurd hsplit (List.splitOn_ne_nil '/' rest)
  | cons first others =>
    constructor
    · rintro ⟨head, tail, hpieces, hhead, htail⟩
      cases hpieces
      exact ⟨first, others, rfl, (h first others hsplit).1 hhead, htail⟩
    · rintro ⟨head, tail, hpieces, hhead, htail⟩
      cases hpieces
      exact ⟨before ++ first, others, rfl, (h first others hsplit).2 hhead, htail⟩

theorem nil : PiecesRead fresh [] := ⟨[], [], rfl, ⟨[], rfl⟩, nofun⟩

theorem char_iff {c : Char} (hstar : c ≠ '*') (hset : c ≠ '[') :
    PiecesRead fresh (c :: rest) ↔ PiecesRead (c == '/') rest := by
  by_cases hslash : c = '/'
  · subst hslash
    have hcut : PiecesRead fresh ([] ++ '/' :: rest) ↔
        ReadsThrough fresh [] ∧ PiecesRead true rest := cut_iff List.not_mem_nil
    exact hcut.trans ⟨And.right, fun h => ⟨⟨[], rfl⟩, h⟩⟩
  · show PiecesRead fresh ([c] ++ rest) ↔ _
    refine append_iff (by simpa using Ne.symm hslash) fun head _ _ => ?_
    exact ReadsThrough.char_iff hstar hset

theorem run_iff (hone : rest.head? ≠ some '*') :
    PiecesRead fresh ('*' :: rest) ↔ PiecesRead false rest := by
  show PiecesRead fresh (['*'] ++ rest) ↔ _
  refine append_iff (by decide) fun head tail hsplit => ?_
  refine ReadsThrough.run_iff ?_
  -- the first piece starts as the pattern does, or is empty
  cases rest with
  | nil =>
    cases hsplit
    exact hone
  | cons c rest =>
    by_cases hslash : c = '/'
    · rw [hslash, List.splitOn_cons_eq_if_modifyHead] at hsplit
      cases hsplit
      nofun
    · rcases splitOn_of_ne_slash hslash rest with ⟨first, others, _, hcons⟩
      rw [hcons] at hsplit
      cases hsplit
      exact hone

theorem tree : PiecesRead true ['*', '*'] :=
  ⟨_, [], List.splitOn_eq_singleton (by decide), ReadsThrough.tree_iff.2 rfl, nofun⟩

theorem trees_iff : PiecesRead true ('*' :: '*' :: '/' :: rest) ↔ PiecesRead true rest := by
  have hcut : PiecesRead true (['*', '*'] ++ '/' :: rest) ↔
      ReadsThrough true ['*', '*'] ∧ PiecesRead true rest := cut_iff (by decide)
  exact hcut.trans ⟨And.right, fun h => ⟨ReadsThrough.tree_iff.2 rfl, h⟩⟩

section

variable {first : Char} {more : List Char}

theorem within_iff (hfirst : first ≠ '!') (hmore : ']' ∉ more) (hslash : NoSlash (first :: more)) :
    PiecesRead fresh ('[' :: first :: (more ++ ']' :: rest)) ↔ PiecesRead false rest := by
  have hset : ∀ rest, '[' :: first :: (more ++ ']' :: rest) =
      ('[' :: first :: (more ++ [']'])) ++ rest := by simp
  rw [hset]
  refine append_iff ?_ fun head _ _ => ?_
  · rw [NoSlash] at hslash
    simp_all
  · rw [← hset]
    exact ReadsThrough.within_iff hfirst hmore

theorem without_iff (hmore : ']' ∉ more) (hslash : NoSlash (first :: more)) :
    PiecesRead fresh ('[' :: '!' :: first :: (more ++ ']' :: rest)) ↔ PiecesRead false rest := by
  have hset : ∀ rest, '[' :: '!' :: first :: (more ++ ']' :: rest) =
      ('[' :: '!' :: first :: (more ++ [']'])) ++ rest := by simp
  rw [hset]
  refine append_iff ?_ fun head _ _ => ?_
  · rw [NoSlash] at hslash
    simp_all
  · rw [← hset]
    exact ReadsThrough.without_iff hmore

/-- A set that a slash cuts off has no bracket that could close it. -/
theorem not_closed {cut after others : List Char} {other : Char} (hmore : ']' ∉ more)
    (hcut : first :: more = cut ++ '/' :: after) {past : List Char}
    (hclosed : cut = other :: (others ++ ']' :: past)) : False := by
  subst hclosed
  rw [List.cons_append, List.cons.injEq] at hcut
  rw [hcut.2] at hmore
  simp at hmore

theorem not_within (hfirst : first ≠ '!') (hmore : ']' ∉ more) (hslash : ¬NoSlash (first :: more)) :
    ¬PiecesRead fresh ('[' :: first :: (more ++ ']' :: rest)) := by
  rcases List.eq_append_cons_of_mem (Classical.not_not.1 hslash) with ⟨cut, after, hcut, hnone⟩
  have hset : '[' :: first :: (more ++ ']' :: rest) =
      ('[' :: cut) ++ '/' :: (after ++ ']' :: rest) := by
    rw [← List.cons_append, hcut]
    simp
  rw [hset, cut_iff (by simpa using hnone)]
  rintro ⟨hopen, _⟩
  rcases hopen.closes with ⟨other, others, past, _, ⟨_, hclosed⟩ | hnegated⟩
  · exact not_closed hmore hcut hclosed
  · rw [hnegated, List.cons_append, List.cons.injEq] at hcut
    exact hfirst hcut.1

theorem not_without (hmore : ']' ∉ more) (hslash : ¬NoSlash (first :: more)) :
    ¬PiecesRead fresh ('[' :: '!' :: first :: (more ++ ']' :: rest)) := by
  rcases List.eq_append_cons_of_mem (Classical.not_not.1 hslash) with ⟨cut, after, hcut, hnone⟩
  have hset : '[' :: '!' :: first :: (more ++ ']' :: rest) =
      ('[' :: '!' :: cut) ++ '/' :: (after ++ ']' :: rest) := by
    rw [← List.cons_append, hcut]
    simp
  rw [hset, cut_iff (by simpa using hnone)]
  rintro ⟨hopen, _⟩
  rcases hopen.closes with ⟨other, others, past, _, ⟨hother, hclosed⟩ | hnegated⟩
  · rw [List.cons.injEq] at hclosed
    exact hother hclosed.1.symm
  · rw [List.cons.injEq] at hnegated
    exact not_closed hmore hcut hnegated.2

end

end PiecesRead

theorem Readable.piecesRead {fresh : Bool} {pattern : List Char}
    (h : Readable NoSlash fresh pattern) : PiecesRead fresh pattern := by
  induction h with
  | nil => exact PiecesRead.nil
  | char hstar hset _ ih => exact (PiecesRead.char_iff hstar hset).2 ih
  | run hone _ ih => exact (PiecesRead.run_iff hone).2 ih
  | tree => exact PiecesRead.tree
  | trees _ ih => exact PiecesRead.trees_iff.2 ih
  | within hfirst hmore hslash _ ih => exact (PiecesRead.within_iff hfirst hmore hslash).2 ih
  | without hmore hslash _ ih => exact (PiecesRead.without_iff hmore hslash).2 ih

/-- If every piece can be read by itself, then no set of the pattern holds a slash. -/
theorem Readable.noSlash {fresh : Bool} {pattern : List Char} (h : Readable AnySet fresh pattern)
    (hpieces : PiecesRead fresh pattern) : Readable NoSlash fresh pattern := by
  induction h with
  | nil => exact .nil
  | char hstar hset _ ih =>
    exact .char hstar hset (ih ((PiecesRead.char_iff hstar hset).1 hpieces))
  | run hone _ ih => exact .run hone (ih ((PiecesRead.run_iff hone).1 hpieces))
  | tree => exact .tree
  | trees _ ih => exact .trees (ih (PiecesRead.trees_iff.1 hpieces))
  | @within fresh first more rest hfirst hmore _ _ ih =>
    by_cases hslash : NoSlash (first :: more)
    · exact .within hfirst hmore hslash
        (ih ((PiecesRead.within_iff hfirst hmore hslash).1 hpieces))
    · exact absurd hpieces (PiecesRead.not_within hfirst hmore hslash)
  | @without fresh first more rest hmore _ _ ih =>
    by_cases hslash : NoSlash (first :: more)
    · exact .without hmore hslash (ih ((PiecesRead.without_iff hmore hslash).1 hpieces))
    · exact absurd hpieces (PiecesRead.not_without hmore hslash)

/-- A pattern that can be read has pieces that can be, unless a set in it holds a slash. -/
theorem readable_pieces_iff {pattern : List Char} (h : Readable AnySet true pattern) :
    (∀ piece ∈ pattern.splitOn '/', ReadsThrough true piece) ↔ Readable NoSlash true pattern := by
  rw [← PiecesRead.true_iff]
  exact ⟨h.noSlash, Readable.piecesRead⟩

/-! ## Patterns below directories -/

theorem isOk_of_mapM {α β ε : Type} {f : α → Except ε β} {items : List α} {bs : List β}
    (h : items.mapM f = .ok bs) : ∀ item ∈ items, ∃ b, f item = .ok b := by
  induction items generalizing bs with
  | nil => exact nofun
  | cons item rest ih =>
    rw [List.mapM_cons] at h
    cases hitem : f item with
    | error e => simp [hitem, bind, Except.bind] at h
    | ok b =>
      cases hrest : rest.mapM f with
      | error e => simp [hitem, hrest, bind, Except.bind] at h
      | ok others => exact List.forall_mem_cons.2 ⟨⟨b, hitem⟩, ih hrest⟩

theorem segment_isOk_iff {piece : List Char} :
    (∃ segment, Segment.compile piece = .ok segment) ↔ ReadsThrough true piece := by
  have hread : ReadsThrough true piece ↔ ∃ ts, compile piece = .ok ts := Iff.rfl
  rw [hread, Segment.compile]
  cases compile piece with
  | error fault => simp [bind, Except.bind]
  | ok ts =>
    refine ⟨fun _ => ⟨ts, rfl⟩, fun _ => ?_⟩
    simp only [bind, Except.bind]
    split
    · exact ⟨_, rfl⟩
    · split <;> exact ⟨_, rfl⟩

/-- A pattern but for a slash in front, which only says where a walk starts. -/
def bodyOf (pattern : List Char) : List Char :=
  if pattern.head? == some '/' then pattern.drop 1 else pattern

/-- The piece that a slash at the end would open can be read anyway. -/
theorem componentsRead_iff {pattern : List Char} :
    (∀ piece ∈ componentsOf pattern, ReadsThrough true piece) ↔
      ∀ piece ∈ pattern.splitOn '/', ReadsThrough true piece := by
  refine ⟨fun h piece hpiece => ?_, fun h piece hpiece => h piece (mem_componentsOf hpiece)⟩
  simp only [componentsOf] at h
  split at h
  · rename_i hlast
    rcases List.getLast?_eq_some_iff.1 hlast with ⟨pieces, hpieces⟩
    rw [hpieces, List.dropLast_concat] at h
    rw [hpieces, List.mem_append, List.mem_singleton] at hpiece
    rcases hpiece with hpiece | rfl
    · exact h piece hpiece
    · exact ⟨[], rfl⟩
  · exact h piece hpiece

/-- A pattern can be evaluated if it can be read as a whole and piece by piece. -/
theorem search_isOk_iff {pattern : List Char} :
    (∃ search, Search.ofPattern pattern = .ok search) ↔
      ReadsThrough true pattern ∧
        ∀ piece ∈ (bodyOf pattern).splitOn '/', ReadsThrough true piece := by
  have hread : ReadsThrough true pattern ↔ ∃ ts, compile pattern = .ok ts := Iff.rfl
  rw [hread, ← componentsRead_iff, Search.ofPattern]
  cases compile pattern with
  | error fault => simp [bind, Except.bind]
  | ok ts =>
    have hbody : ∀ others, (componentsOf (bodyOf pattern)).mapM Segment.compile = others →
        ((∃ segments, others = .ok segments) ↔
          ∀ piece ∈ componentsOf (bodyOf pattern), ReadsThrough true piece) := by
      rintro _ rfl
      simp only [← segment_isOk_iff]
      constructor
      · rintro ⟨_, h⟩
        exact isOk_of_mapM h
      · exact mapM_isOk
    rw [← hbody _ rfl]
    simp only [bodyOf, bind, Except.bind]
    cases (componentsOf (if pattern.head? == some '/' then pattern.drop 1 else pattern)).mapM
        Segment.compile with
    | error fault => simp
    | ok segments => exact ⟨fun _ => ⟨⟨ts, rfl⟩, ⟨segments, rfl⟩⟩, fun _ => ⟨_, rfl⟩⟩

/-- Below a directory, its names, each escaped, come before the pieces of the pattern. -/
theorem pieces_below (text pattern : List Char) :
    ∃ names : List (List Char), (∀ name ∈ names, '/' ∉ name) ∧
      (bodyOf (escape text ++ '/' :: pattern)).splitOn '/' =
        names.map escape ++ pattern.splitOn '/' := by
  have hnames : ∀ text : List Char, ∀ name ∈ text.splitOn '/', '/' ∉ name :=
    fun _ _ hname hslash => (FileSystem.mem_splitOn hname hslash).1 rfl
  cases text with
  | nil => exact ⟨[], nofun, rfl⟩
  | cons c rest =>
    by_cases hslash : c = '/'
    · -- the slash in front of the directory is none of the pattern's pieces
      subst hslash
      have hescape : escape ('/' :: rest) = '/' :: escape rest := by
        rw [escape_cons]
        rfl
      refine ⟨rest.splitOn '/', hnames rest, ?_⟩
      rw [hescape, ← splitOn_escape, ← List.splitOn_append_cons_self]
      rfl
    · refine ⟨(c :: rest).splitOn '/', hnames (c :: rest), ?_⟩
      have hrelative : ((escape (c :: rest) ++ '/' :: pattern).head? == some '/') = false := by
        rw [escape_cons]
        split <;> simp [hslash]
      rw [bodyOf, hrelative, ← splitOn_escape, ← List.splitOn_append_cons_self]
      rfl

/-- Whatever the directory, a pattern that can be read can be evaluated below it if and only if no
set of the pattern holds a slash. -/
theorem search_below_isOk_iff (text : List Char) {pattern : List Char}
    (h : Readable AnySet true pattern) :
    (∃ search, Search.ofPattern (escape text ++ '/' :: pattern) = .ok search) ↔
      Readable NoSlash true pattern := by
  rcases compile_isOk_iff.2 h with ⟨ts, hcompile⟩
  have hwhole : ReadsThrough true (escape text ++ '/' :: pattern) := compile_below text hcompile
  rcases pieces_below text pattern with ⟨names, _, hpieces⟩
  have hsimple : ∀ piece ∈ names.map escape, ReadsThrough true piece :=
    List.forall_mem_map.2 fun name _ => (simple_escape name).compile_isOk
  rw [search_isOk_iff, hpieces, List.forall_mem_append, ← readable_pieces_iff h]
  exact ⟨fun hread => hread.2.2, fun hread => ⟨hwhole, hsimple, hread⟩⟩

end Glob

/-! ## Selections -/

namespace ArtifactGlob

open Glob (Readable NoSlash)

theorem readable (g : ArtifactGlob) : Readable Glob.AnySet true g.pattern.toList := by
  refine Glob.compile_isOk_iff.1 ?_
  cases hcompile : Glob.compile g.pattern.toList with
  | error fault => simpa [hcompile, Except.isOk, Except.toBool] using g.wellFormed
  | ok ts => exact ⟨ts, rfl⟩

/-- Among any files and below any directory, a pattern selects something unless a set holds a
slash. -/
theorem select_isOk_iff (g : ArtifactGlob) (fs : FileSystem) (dir : Path) :
    (∃ selection, g.select fs dir = .ok selection) ↔ Readable NoSlash true g.pattern.toList := by
  rw [← Glob.search_below_isOk_iff dir.text.toList g.readable, select]
  show _ ↔ ∃ search, Glob.Search.ofPattern (g.below dir) = .ok search
  cases Glob.Search.ofPattern (g.below dir) with
  | error fault => simp
  | ok search => exact ⟨fun _ => ⟨search, rfl⟩, fun _ => ⟨_, rfl⟩⟩

variable {σ : Type}

/--
A pattern that was accepted can be evaluated below every directory and among any files, if no set
in it holds a slash; if one does, every evaluation ends with the error for a malformed pattern.
-/
theorem matchingFiles_isOk_iff (g : ArtifactGlob) (dir : Path) (w : World σ) :
    let result := ((g.matchingFiles dir).run.run w).1
    ((∃ files, result = .ok files) ↔ Readable NoSlash true g.pattern.toList) ∧
      ((∃ files, result = .ok files) ∨
        ∃ reason, result = .error (.invalidGlob (String.ofList (g.below dir)) reason)) := by
  intro result
  have hresult : result = (g.select w.files dir).map Selection.files :=
    (matchingFiles_selects g dir w).2
  rw [← select_isOk_iff g w.files dir, hresult]
  rw [select]
  cases Glob.Search.ofPattern (g.below dir) with
  | error fault =>
    refine ⟨?_, .inr ⟨_, rfl⟩⟩
    simp [Except.map]
  | ok search => exact ⟨⟨fun _ => ⟨_, rfl⟩, fun _ => ⟨_, rfl⟩⟩, .inl ⟨_, rfl⟩⟩

/-- A set that holds a slash and nothing else. -/
def slashSet : ArtifactGlob := ⟨"[/]", by decide +kernel⟩

/-- Such a pattern is accepted, and refused when it is evaluated. -/
theorem slashSet_refused :
    (ofPattern slashSet.pattern).isOk = true ∧
      errorOf ((slashSet.matchingFiles "/boot" : Attempt Nat (List Path)).run.run
          ⟨SmallBoot.files, 0, []⟩).1 =
        some (.invalidGlob "/boot/[/]"
          "Pattern syntax error near position 0: invalid range pattern") := by
  exact ⟨by decide +kernel, by decide +kernel⟩

end ArtifactGlob

/--
The groups of a plan can be found among any files, if no set of its pattern holds a slash; if one
does, the bootloaders of no boot directory can be.
-/
theorem SigningPlan.groups_found_iff {pattern : String} {plan : SigningPlan}
    (h : ofPattern pattern = .ok plan) (layout : BootLayout) (fs : FileSystem) :
    (∀ group ∈ groupsOf layout plan, ∃ turns, group fs = .ok turns) ↔
      Glob.Readable Glob.NoSlash true pattern.toList := by
  rw [← (patterns_ofPattern h).1, ← plan.bootloaders.select_isOk_iff fs layout.bootloaderDir,
    ← @selected_isOk_iff _ _ .bootloader]
  simp only [groupsOf, List.forall_mem_cons]
  constructor
  · exact And.left
  · intro hloaders
    refine ⟨hloaders, ⟨_, rfl⟩, ?_, ⟨_, rfl⟩, List.forall_mem_nil _⟩
    exact selected_isOk_iff.2 (select_syslinuxKernels h fs _)

end BootSigning
