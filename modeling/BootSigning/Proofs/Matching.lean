import BootSigning.Glob.Pattern

/-!
# Matching — what a pattern says

A pattern is read to tokens, and a name is matched against all end parts of them in one pass.  What
comes of it can be said of the pattern as it is written:

* `InSet`: a character is in a set as it stands between brackets;
* `Matches`: a text as a whole matches a pattern, character by character.

`accepts_iff_matches` says that the tokens of a pattern accept just these texts.
-/

namespace BootSigning
namespace Glob

/-! ## Patterns as written -/

/-- The character is in a set, where a dash between two characters stands for all from the first to
the last. -/
def InSet (c : Char) : List Char → Prop
  | first :: '-' :: last :: rest => (first ≤ c ∧ c ≤ last) ∨ InSet c rest
  | first :: rest => c = first ∨ InSet c rest
  | [] => False

/-- The pattern matches the whole text. -/
inductive Matches : List Char → List Char → Prop where
  | nil : Matches [] []
  | char {c : Char} {pattern text : List Char} (hc : isMeta c = false)
      (hrest : Matches pattern text) : Matches (c :: pattern) (c :: text)
  | any {c : Char} {pattern text : List Char} (hrest : Matches pattern text) :
      Matches ('?' :: pattern) (c :: text)
  | run {taken pattern text : List Char} (hrest : Matches pattern text) :
      Matches ('*' :: pattern) (taken ++ text)
  /-- A set ends at the first bracket after its first member. -/
  | within {c first : Char} {more pattern text : List Char} (hfirst : first ≠ '!')
      (hmore : ']' ∉ more) (hc : InSet c (first :: more)) (hrest : Matches pattern text) :
      Matches ('[' :: first :: (more ++ ']' :: pattern)) (c :: text)
  | without {c first : Char} {more pattern text : List Char} (hmore : ']' ∉ more)
      (hc : ¬ InSet c (first :: more)) (hrest : Matches pattern text) :
      Matches ('[' :: '!' :: first :: (more ++ ']' :: pattern)) (c :: text)

/-- The tokens of a pattern. -/
inductive Reads : List Char → List Token → Prop where
  | nil : Reads [] []
  | char {c : Char} {pattern : List Char} {ts : List Token} (hc : isMeta c = false)
      (hrest : Reads pattern ts) : Reads (c :: pattern) (.char c :: ts)
  | any {pattern : List Char} {ts : List Token} (hrest : Reads pattern ts) :
      Reads ('?' :: pattern) (.any :: ts)
  | run {pattern : List Char} {ts : List Token} (hrest : Reads pattern ts) :
      Reads ('*' :: pattern) (.run :: ts)
  | within {first : Char} {more pattern : List Char} {ts : List Token} (hfirst : first ≠ '!')
      (hmore : ']' ∉ more) (hrest : Reads pattern ts) :
      Reads ('[' :: first :: (more ++ ']' :: pattern)) (.within (members (first :: more)) :: ts)
  | without {first : Char} {more pattern : List Char} {ts : List Token} (hmore : ']' ∉ more)
      (hrest : Reads pattern ts) :
      Reads ('[' :: '!' :: first :: (more ++ ']' :: pattern))
        (.without (members (first :: more)) :: ts)

/-! ## Matching tokens -/

theorem members_any (c : Char) (spelled : List Char) :
    (members spelled).any (Member.holds c) = true ↔ InSet c spelled := by
  fun_induction members spelled with
  | case1 first last rest ih => simp [InSet, Member.holds, ih]
  | case2 first rest hspan ih =>
    have hset : InSet c (first :: rest) ↔ c = first ∨ InSet c rest := by
      rw [InSet]
      exact hspan
    simp [hset, Member.holds, ih]
  | case3 => simp [InSet]

/-- The answers for all end parts are the answer for all tokens and those for the others. -/
theorem matchTable_cons (t : Token) (ts : List Token) (text : List Char) :
    matchTable (t :: ts) text = accepts (t :: ts) text :: matchTable ts text := by
  have hsplit : ∃ answer, matchTable (t :: ts) text = answer :: matchTable ts text := by
    induction text with
    | nil => exact ⟨_, rfl⟩
    | cons c text ih =>
      rcases ih with ⟨answer, hanswer⟩
      exact ⟨_, by rw [matchTable, hanswer, matchesNext]; rfl⟩
  rcases hsplit with ⟨answer, hanswer⟩
  rw [accepts, hanswer]
  rfl

section

variable {c : Char} {t : Token} {ts : List Token} {text : List Char}

theorem accepts_nil_iff : accepts [] text = true ↔ text = [] := by
  cases text <;> simp [accepts, matchTable, matchesEmpty, matchesNext]

theorem accepts_cons_nil : accepts (t :: ts) [] = (t.isRun && accepts ts []) := rfl

/-- A run either ends before the next character or takes it; any other token takes exactly it. -/
theorem accepts_cons_cons :
    accepts (t :: ts) (c :: text) =
      if t.isRun then accepts ts (c :: text) || accepts (t :: ts) text
      else t.holds c && accepts ts text := by
  have hrow : matchTable (t :: ts) (c :: text) =
      (if t.isRun then accepts ts (c :: text) || accepts (t :: ts) text
        else t.holds c && accepts ts text) :: matchTable ts (c :: text) := by
    rw [matchTable, matchTable_cons]
    rfl
  rw [accepts, hrow]
  rfl

/-- A token that is no run stands for one character. -/
theorem accepts_single (ht : t.isRun = false) :
    accepts (t :: ts) text = true ↔
      ∃ c rest, text = c :: rest ∧ t.holds c = true ∧ accepts ts rest = true := by
  cases text with
  | nil => simp [accepts_cons_nil, ht]
  | cons c rest =>
    rw [accepts_cons_cons, ht]
    simp only [Bool.false_eq_true, if_false, Bool.and_eq_true]
    constructor
    · exact fun h => ⟨c, rest, rfl, h⟩
    · rintro ⟨_, _, ⟨⟩, h⟩
      exact h

theorem accepts_run :
    accepts (.run :: ts) text = true ↔
      ∃ taken rest, text = taken ++ rest ∧ accepts ts rest = true := by
  induction text with
  | nil =>
    constructor
    · exact fun h => ⟨[], [], rfl, h⟩
    · rintro ⟨taken, rest, htext, h⟩
      rcases List.append_eq_nil_iff.1 htext.symm with ⟨_, rfl⟩
      exact h
  | cons c text ih =>
    have hrun : Token.isRun .run = true := rfl
    rw [accepts_cons_cons, if_pos hrun, Bool.or_eq_true, ih]
    constructor
    · rintro (h | ⟨taken, rest, rfl, h⟩)
      · exact ⟨[], c :: text, rfl, h⟩
      · exact ⟨c :: taken, rest, rfl, h⟩
    · rintro ⟨taken, rest, htext, h⟩
      cases taken with
      | nil => exact .inl (by simpa [htext] using h)
      | cons first taken =>
        rw [List.cons_append, List.cons.injEq] at htext
        exact .inr ⟨taken, rest, htext.2, h⟩

end

/-! ## Matching patterns -/

/-- A text is split in one way at its first bracket. -/
theorem first_bracket {before before' after after' : List Char} (h : ']' ∉ before)
    (h' : ']' ∉ before') (hends : before ++ ']' :: after = before' ++ ']' :: after') :
    before = before' ∧ after = after' := by
  induction before generalizing before' with
  | nil =>
    cases before' with
    | nil =>
      injection hends with _ hafter
      exact ⟨rfl, hafter⟩
    | cons c before' =>
      injection hends with hc _
      exact absurd (hc ▸ List.mem_cons_self) h'
  | cons c before ih =>
    cases before' with
    | nil =>
      injection hends with hc _
      exact absurd (hc ▸ List.mem_cons_self) h
    | cons c' before' =>
      injection hends with hc hrest
      rcases ih (mt (List.mem_cons_of_mem c) h) (mt (List.mem_cons_of_mem c') h') hrest with
        ⟨rfl, hafter⟩
      exact ⟨by rw [hc], hafter⟩

section

variable {first : Char} {more pattern text : List Char}

theorem matches_char {c : Char} (hc : isMeta c = false) :
    Matches (c :: pattern) text ↔ ∃ rest, text = c :: rest ∧ Matches pattern rest := by
  constructor
  · intro h
    cases h with
    | @char _ _ text _ hrest => exact ⟨text, rfl, hrest⟩
    | any | run | within | without => cases hc
  · rintro ⟨rest, rfl, hrest⟩
    exact .char hc hrest

theorem matches_within (hfirst : first ≠ '!') (hmore : ']' ∉ more) :
    Matches ('[' :: first :: (more ++ ']' :: pattern)) text ↔
      ∃ c rest, text = c :: rest ∧ InSet c (first :: more) ∧ Matches pattern rest := by
  constructor
  · intro h
    generalize hall : '[' :: first :: (more ++ ']' :: pattern) = all at h
    cases h with
    | nil | any | run => cases hall
    | char hc =>
      cases hall
      cases hc
    | @within c first' more' pattern' rest _ hmore' hc hrest =>
      -- both sets end at their first bracket, which is the same
      injection hall with _ hset
      injection hset with hmember hends
      subst hmember
      rcases first_bracket hmore hmore' hends with ⟨rfl, rfl⟩
      exact ⟨c, rest, rfl, hc, hrest⟩
    | without =>
      injection hall with _ hset
      injection hset with hmember _
      exact absurd hmember hfirst
  · rintro ⟨c, rest, rfl, hc, hrest⟩
    exact .within hfirst hmore hc hrest

theorem matches_without (hmore : ']' ∉ more) :
    Matches ('[' :: '!' :: first :: (more ++ ']' :: pattern)) text ↔
      ∃ c rest, text = c :: rest ∧ ¬ InSet c (first :: more) ∧ Matches pattern rest := by
  constructor
  · intro h
    generalize hall : '[' :: '!' :: first :: (more ++ ']' :: pattern) = all at h
    cases h with
    | nil | any | run => cases hall
    | char hc =>
      cases hall
      cases hc
    | within hfirst =>
      injection hall with _ hset
      injection hset with hmember _
      exact absurd hmember.symm hfirst
    | @without c first' more' pattern' rest hmore' hc hrest =>
      injection hall with _ hset
      injection hset with _ hset
      injection hset with hmember hends
      subst hmember
      rcases first_bracket hmore hmore' hends with ⟨rfl, rfl⟩
      exact ⟨c, rest, rfl, hc, hrest⟩
  · rintro ⟨c, rest, rfl, hc, hrest⟩
    exact .without hmore hc hrest

end

/-- What a pattern matches is what its tokens accept. -/
theorem Reads.matches_iff {pattern : List Char} {ts : List Token} (h : Reads pattern ts)
    (text : List Char) : Matches pattern text ↔ accepts ts text = true := by
  induction h generalizing text with
  | nil =>
    rw [accepts_nil_iff]
    constructor
    · intro h
      cases h
      rfl
    · rintro rfl
      exact .nil
  | @char c pattern ts hc _ ih =>
    rw [matches_char hc, accepts_single rfl]
    constructor
    · rintro ⟨rest, rfl, hrest⟩
      exact ⟨c, rest, rfl, by simp [Token.holds], (ih rest).1 hrest⟩
    · rintro ⟨first, rest, rfl, hfirst, hrest⟩
      have hfirst : first = c := by simpa [Token.holds] using hfirst
      exact ⟨rest, by rw [hfirst], (ih rest).2 hrest⟩
  | @any pattern ts _ ih =>
    rw [accepts_single rfl]
    constructor
    · intro h
      cases h with
      | char hc => cases hc
      | @any c _ text hrest => exact ⟨c, text, rfl, rfl, (ih text).1 hrest⟩
    · rintro ⟨c, rest, rfl, _, hrest⟩
      exact .any ((ih rest).2 hrest)
  | @run pattern ts _ ih =>
    rw [accepts_run]
    constructor
    · intro h
      cases h with
      | char hc => cases hc
      | @run taken _ text hrest => exact ⟨taken, text, rfl, (ih text).1 hrest⟩
    · rintro ⟨taken, rest, rfl, hrest⟩
      exact .run ((ih rest).2 hrest)
  | within hfirst hmore _ ih =>
    rw [matches_within hfirst hmore, accepts_single rfl]
    simp only [Token.holds, members_any, ih]
  | without hmore _ ih =>
    rw [matches_without hmore, accepts_single rfl]
    simp only [Token.holds, Bool.not_eq_true', ← Bool.not_eq_true, members_any, ih]

/-- A pattern for one name has no token for directories. -/
theorem Reads.no_tree {pattern : List Char} {ts : List Token} (h : Reads pattern ts) :
    Token.tree ∉ ts := by
  induction h with
  | nil => simp
  | char _ _ ih | any _ ih | run _ ih | within _ _ _ ih | without _ _ ih => simp [ih]

/-! ## Reading a pattern -/

/-- The tokens when a reader has read the rest of a pattern. -/
def Reader.readRest (r : Reader) (pattern : List Char) : Except PatternFault (List Token) := do
  (← pattern.foldlM Reader.step r).finish

namespace Reader

theorem readRest_cons {r r' : Reader} {c : Char} (h : r.step c = .ok r') (pattern : List Char) :
    r.readRest (c :: pattern) = r'.readRest pattern := by
  simp only [readRest, List.foldlM_cons, h, bind, Except.bind]

theorem readRest_fault {r : Reader} {c : Char} {fault : PatternFault} (h : r.step c = .error fault)
    (pattern : List Char) : r.readRest (c :: pattern) = .error fault := by
  simp only [readRest, List.foldlM_cons, h, bind, Except.bind]

section

variable {position opened count : Nat} {fresh start : Bool} {tokens ts : List Token}

/-- A set with a member is read up to its closing bracket. -/
theorem readRest_closed {negated : Bool} {reversed more : List Char} (hsome : reversed ≠ [])
    (hmore : ']' ∉ more) (after : List Char) :
    ∃ position' tokens', readRest ⟨position, fresh, tokens, .set opened negated reversed⟩
      (more ++ ']' :: after) = readRest ⟨position', false, tokens', .between⟩ after := by
  induction more generalizing position fresh reversed with
  | nil =>
    have hstep : Reader.step ⟨position, fresh, tokens, .set opened negated reversed⟩ ']' =
        .ok ⟨position + 1, false, setToken negated reversed :: tokens, .between⟩ := by
      simp [Reader.step, Reader.advance, hsome]
    exact ⟨_, _, readRest_cons hstep after⟩
  | cons c more ih =>
    rcases not_or.1 (mt List.mem_cons.2 hmore) with ⟨hc, hmore⟩
    have hstep : Reader.step ⟨position, fresh, tokens, .set opened negated reversed⟩ c =
        .ok ⟨position + 1, false, tokens, .set opened negated (c :: reversed)⟩ := by
      simp [Reader.step, Reader.advance, Ne.symm hc]
    rw [List.cons_append, readRest_cons hstep]
    exact ih (List.cons_ne_nil _ _) hmore

/-- A set that is closed goes on to the first bracket. -/
theorem readRest_set {negated : Bool} {reversed : List Char} (hsome : reversed ≠ [])
    {rest : List Char}
    (h : readRest ⟨position, fresh, tokens, .set opened negated reversed⟩ rest = .ok ts) :
    ∃ more after position', rest = more ++ ']' :: after ∧ ']' ∉ more ∧
      readRest ⟨position', false, setToken negated (more.reverse ++ reversed) :: tokens, .between⟩
        after = .ok ts := by
  induction rest generalizing position fresh reversed with
  | nil => cases h
  | cons c rest ih =>
    by_cases hc : c = ']'
    · subst hc
      have hstep : Reader.step ⟨position, fresh, tokens, .set opened negated reversed⟩ ']' =
          .ok ⟨position + 1, false, setToken negated reversed :: tokens, .between⟩ := by
        simp [Reader.step, Reader.advance, hsome]
      rw [readRest_cons hstep] at h
      exact ⟨[], rest, position + 1, rfl, by simp, h⟩
    · have hstep : Reader.step ⟨position, fresh, tokens, .set opened negated reversed⟩ c =
          .ok ⟨position + 1, false, tokens, .set opened negated (c :: reversed)⟩ := by
        simp [Reader.step, Reader.advance, hc]
      rw [readRest_cons hstep] at h
      rcases ih (List.cons_ne_nil _ _) h with ⟨more, after, position', rfl, hmore, hrest⟩
      refine ⟨c :: more, after, position', rfl, ?_, ?_⟩
      · simp [hmore, Ne.symm hc]
      · simpa using hrest

theorem starToken_many (hcount : 3 ≤ count) (position : Nat) (start : Bool) (next : Option Char) :
    ∃ fault, starToken position count start next = .error fault := by
  match count, hcount with
  | count + 3, _ => exact ⟨_, rfl⟩

/-- Three stars or more are never read. -/
theorem readRest_stars {rest : List Char} (hcount : 3 ≤ count) :
    readRest ⟨position, fresh, tokens, .stars count start⟩ rest ≠ .ok ts := by
  induction rest generalizing count position fresh with
  | nil =>
    rcases starToken_many hcount position start none with ⟨fault, hfault⟩
    simp [readRest, Reader.finish, hfault, bind, Except.bind, pure, Except.pure]
  | cons c rest ih =>
    by_cases hc : c = '*'
    · subst hc
      have hstep : Reader.step ⟨position, fresh, tokens, .stars count start⟩ '*' =
          .ok ⟨position + 1, start, tokens, .stars (count + 1) start⟩ := rfl
      rw [readRest_cons hstep]
      exact ih (Nat.le_succ_of_le hcount)
    · rcases starToken_many hcount position start (some c) with ⟨fault, hfault⟩
      have hstep : Reader.step ⟨position, fresh, tokens, .stars count start⟩ c = .error fault := by
        simp [Reader.step, hc, hfault, bind, Except.bind]
      rw [readRest_fault hstep]
      nofun

/-- Two stars before anything but a slash are never read. -/
theorem readRest_two_stars {c : Char} {rest : List Char} (hslash : c ≠ '/') :
    readRest ⟨position, fresh, tokens, .stars 2 start⟩ (c :: rest) ≠ .ok ts := by
  by_cases hc : c = '*'
  · subst hc
    have hstep : Reader.step ⟨position, fresh, tokens, .stars 2 start⟩ '*' =
        .ok ⟨position + 1, start, tokens, .stars 3 start⟩ := rfl
    rw [readRest_cons hstep]
    exact readRest_stars (Nat.le_refl 3)
  · have htoken : ∃ fault, starToken position 2 start (some c) = .error fault := by
      cases start with
      | false => exact ⟨_, rfl⟩
      | true => exact ⟨⟨position, .partialComponent⟩, by simp [starToken]⟩
    rcases htoken with ⟨fault, hfault⟩
    have hstep : Reader.step ⟨position, fresh, tokens, .stars 2 start⟩ c = .error fault := by
      simp [Reader.step, hc, hfault, bind, Except.bind]
    rw [readRest_fault hstep]
    nofun

/-- What comes after one star is read as if nothing were pending. -/
theorem readRest_run {rest : List Char} (hone : rest.head? ≠ some '*') :
    readRest ⟨position, fresh, tokens, .stars 1 start⟩ rest =
      readRest ⟨position, false, .run :: tokens, .between⟩ rest := by
  cases rest with
  | nil => rfl
  | cons c rest =>
    have hc : c ≠ '*' := by simpa using hone
    have hstep : Reader.step ⟨position, fresh, tokens, .stars 1 start⟩ c =
        Reader.step ⟨position, false, .run :: tokens, .between⟩ c := by
      simp [Reader.step, hc, starToken, bind, Except.bind, pure, Except.pure]
    simp only [readRest, List.foldlM_cons, hstep]

/-- One star is a run, and two that are the whole pattern are left. -/
theorem readRest_star {rest : List Char} (hslash : '/' ∉ rest)
    (h : readRest ⟨position, fresh, tokens, .stars 1 start⟩ rest = .ok ts) :
    readRest ⟨position, false, .run :: tokens, .between⟩ rest = .ok ts ∨
      (start = true ∧ rest = ['*']) := by
  by_cases hone : rest.head? = some '*'
  · rcases List.head?_eq_some_iff.1 hone with ⟨others, rfl⟩
    have hstep : Reader.step ⟨position, fresh, tokens, .stars 1 start⟩ '*' =
        .ok ⟨position + 1, start, tokens, .stars 2 start⟩ := rfl
    rw [readRest_cons hstep] at h
    cases others with
    | nil =>
      cases start with
      | false => cases h
      | true => exact .inr ⟨rfl, rfl⟩
    | cons next others =>
      have hnext : next ≠ '/' := by
        rintro rfl
        simp at hslash
      exact absurd h (readRest_two_stars hnext)
  · rw [readRest_run hone] at h
    exact .inl h

/-- After an opening bracket there are a member, perhaps more, and a closing one. -/
theorem readRest_bracket {rest : List Char}
    (h : readRest ⟨position, fresh, tokens, .bracket opened⟩ rest = .ok ts) :
    ∃ first more after position', ']' ∉ more ∧
      ((first ≠ '!' ∧ rest = first :: (more ++ ']' :: after) ∧
          readRest ⟨position', false, .within (members (first :: more)) :: tokens, .between⟩ after =
            .ok ts) ∨
        (rest = '!' :: first :: (more ++ ']' :: after) ∧
          readRest ⟨position', false, .without (members (first :: more)) :: tokens, .between⟩
            after = .ok ts)) := by
  cases rest with
  | nil => cases h
  | cons c rest =>
    by_cases hc : c = '!'
    · subst hc
      have hstep : Reader.step ⟨position, fresh, tokens, .bracket opened⟩ '!' =
          .ok ⟨position + 1, false, tokens, .set opened true []⟩ := rfl
      rw [readRest_cons hstep] at h
      cases rest with
      | nil => cases h
      | cons first rest =>
        -- the first member may be a bracket
        have hfirst : Reader.step ⟨position + 1, false, tokens, .set opened true []⟩ first =
            .ok ⟨position + 2, false, tokens, .set opened true [first]⟩ := by
          simp [Reader.step, Reader.advance]
        rw [readRest_cons hfirst] at h
        rcases readRest_set (List.cons_ne_nil _ _) h with
          ⟨more, after, position', rfl, hmore, hrest⟩
        refine ⟨first, more, after, position', hmore, .inr ⟨rfl, ?_⟩⟩
        simpa [setToken] using hrest
    · have hstep : Reader.step ⟨position, fresh, tokens, .bracket opened⟩ c =
          .ok ⟨position + 1, false, tokens, .set opened false [c]⟩ := by
        simp [Reader.step, Reader.advance, hc]
      rw [readRest_cons hstep] at h
      rcases readRest_set (List.cons_ne_nil _ _) h with ⟨more, after, position', rfl, hmore, hrest⟩
      refine ⟨c, more, after, position', hmore, .inl ⟨hc, rfl, ?_⟩⟩
      simpa [setToken] using hrest

end

/-- A pattern for one name is read token by token, but for two stars alone. -/
theorem reads_of_readRest (length : Nat) : ∀ {pattern : List Char} {position : Nat} {fresh : Bool}
    {tokens ts : List Token}, pattern.length ≤ length → '/' ∉ pattern →
      readRest ⟨position, fresh, tokens, .between⟩ pattern = .ok ts →
      (∃ more, ts = tokens.reverse ++ more ∧ Reads pattern more) ∨
        (fresh = true ∧ pattern = ['*', '*']) := by
  -- A set is read in one go, so the induction is on the length.
  induction length with
  | zero =>
    intro pattern position fresh tokens ts hlength _ h
    have hnil : pattern = [] := List.length_eq_zero_iff.1 (Nat.le_zero.1 hlength)
    subst hnil
    cases h
    exact .inl ⟨[], by simp, .nil⟩
  | succ length ih =>
    intro pattern position fresh tokens ts hlength hslash h
    -- once something was read, two stars are not a whole pattern
    have hlater : ∀ {rest : List Char} {position : Nat} {token : Token}, rest.length ≤ length →
        '/' ∉ rest → readRest ⟨position, false, token :: tokens, .between⟩ rest = .ok ts →
        ∃ more, ts = tokens.reverse ++ token :: more ∧ Reads rest more := by
      intro rest position token hrest hslash h
      rcases ih hrest hslash h with ⟨more, rfl, hreads⟩ | ⟨⟨⟩, _⟩
      exact ⟨more, by simp, hreads⟩
    cases pattern with
    | nil =>
      cases h
      exact .inl ⟨[], by simp, .nil⟩
    | cons c rest =>
      rcases not_or.1 (mt List.mem_cons.2 hslash) with ⟨hc, hrest⟩
      have hshort : rest.length ≤ length := Nat.le_of_succ_le_succ hlength
      by_cases hany : c = '?'
      · subst hany
        have hstep : Reader.step ⟨position, fresh, tokens, .between⟩ '?' =
            .ok ⟨position + 1, false, .any :: tokens, .between⟩ := rfl
        rw [readRest_cons hstep] at h
        rcases hlater hshort hrest h with ⟨more, hts, hreads⟩
        exact .inl ⟨.any :: more, hts, .any hreads⟩
      by_cases hstar : c = '*'
      · subst hstar
        have hstep : Reader.step ⟨position, fresh, tokens, .between⟩ '*' =
            .ok ⟨position + 1, fresh, tokens, .stars 1 fresh⟩ := rfl
        rw [readRest_cons hstep] at h
        rcases readRest_star hrest h with hrun | ⟨hfresh, rfl⟩
        · rcases hlater hshort hrest hrun with ⟨more, hts, hreads⟩
          exact .inl ⟨.run :: more, hts, .run hreads⟩
        · exact .inr ⟨hfresh, rfl⟩
      by_cases hset : c = '['
      · subst hset
        have hstep : Reader.step ⟨position, fresh, tokens, .between⟩ '[' =
            .ok ⟨position + 1, false, tokens, .bracket position⟩ := rfl
        rw [readRest_cons hstep] at h
        rcases readRest_bracket h with ⟨first, more, after, position', hmore,
          ⟨hfirst, rfl, hread⟩ | ⟨rfl, hread⟩⟩
        · have hafter : after.length ≤ length := by
            simp only [List.length_cons, List.length_append] at hshort
            omega
          rcases hlater hafter (by simp_all) hread with ⟨others, hts, hreads⟩
          exact .inl ⟨_, hts, .within hfirst hmore hreads⟩
        · have hafter : after.length ≤ length := by
            simp only [List.length_cons, List.length_append] at hshort
            omega
          rcases hlater hafter (by simp_all) hread with ⟨others, hts, hreads⟩
          exact .inl ⟨_, hts, .without hmore hreads⟩
      · have hmeta : isMeta c = false := by simp [isMeta, hany, hstar, hset]
        have hstep : Reader.step ⟨position, fresh, tokens, .between⟩ c =
            .ok ⟨position + 1, false, .char c :: tokens, .between⟩ := by
          simp [Reader.step, Reader.begin, Reader.advance, hany, hstar, hset, Ne.symm hc]
        rw [readRest_cons hstep] at h
        rcases hlater hshort hrest h with ⟨more, hts, hreads⟩
        exact .inl ⟨.char c :: more, hts, .char hmeta hreads⟩

/-! ### Patterns after others -/

/-- The readers go on alike, whatever they have read. -/
inductive Alike : Reader → Reader → Prop where
  | between {p p' : Nat} {fresh : Bool} {ts ts' : List Token} :
      Alike ⟨p, fresh, ts, .between⟩ ⟨p', fresh, ts', .between⟩
  | stars {p p' count : Nat} {fresh fresh' start : Bool} {ts ts' : List Token} :
      Alike ⟨p, fresh, ts, .stars count start⟩ ⟨p', fresh', ts', .stars count start⟩
  | bracket {p p' opened opened' : Nat} {fresh fresh' : Bool} {ts ts' : List Token} :
      Alike ⟨p, fresh, ts, .bracket opened⟩ ⟨p', fresh', ts', .bracket opened'⟩
  | set {p p' opened opened' : Nat} {fresh fresh' negated : Bool} {ts ts' : List Token}
      {reversed : List Char} :
      Alike ⟨p, fresh, ts, .set opened negated reversed⟩
        ⟨p', fresh', ts', .set opened' negated reversed⟩

theorem starToken_alike {p p' count : Nat} {start : Bool} {next : Option Char} {token : Token}
    (h : starToken p count start next = .ok token) : starToken p' count start next = .ok token := by
  unfold starToken at h ⊢
  split at h
  · exact h
  · exact h
  · split at h
    · cases h
    · rename_i hstart
      rw [if_neg hstart]
      split at h
      · exact h
      · exact h
      · cases h
  · cases h

theorem begin_alike {p p' : Nat} {fresh : Bool} {ts ts' : List Token} {reading : Reading}
    (c : Char) :
    Alike (begin ⟨p, fresh, ts, reading⟩ c) (begin ⟨p', fresh, ts', reading⟩ c) := by
  unfold begin
  split
  · exact .between
  · split
    · exact .stars
    · split
      · exact .bracket
      · exact .between

theorem step_alike {r r' s : Reader} {c : Char} (halike : Alike r r') (h : r.step c = .ok s) :
    ∃ s', r'.step c = .ok s' ∧ Alike s s' := by
  cases halike with
  | between =>
    cases h
    exact ⟨_, rfl, begin_alike c⟩
  | @stars p p' count _ _ start ts ts' =>
    by_cases hc : c = '*'
    · subst hc
      cases h
      exact ⟨_, rfl, .stars⟩
    · simp only [step, if_neg hc] at h ⊢
      cases htoken : starToken p count start (some c) with
      | error fault =>
        rw [htoken] at h
        cases h
      | ok token =>
        rw [htoken] at h
        rw [starToken_alike htoken]
        cases token with
        | tree =>
          cases h
          exact ⟨_, rfl, .between⟩
        | _ =>
          cases h
          exact ⟨_, rfl, begin_alike c⟩
  | bracket =>
    cases h
    refine ⟨_, rfl, ?_⟩
    unfold advance
    by_cases hc : c = '!'
    · simp only [if_pos hc]
      exact .set
    · simp only [if_neg hc]
      exact .set
  | @set p p' opened opened' _ _ negated ts ts' reversed =>
    by_cases hc : c = ']' ∧ reversed ≠ []
    · simp only [step, if_pos hc] at h ⊢
      cases h
      exact ⟨_, rfl, .between⟩
    · simp only [step, if_neg hc] at h ⊢
      cases h
      exact ⟨_, rfl, .set⟩

/-- What one of them can read, so can the other. -/
theorem readRest_alike {pattern : List Char} {r r' : Reader} {ts : List Token}
    (halike : Alike r r') (h : r.readRest pattern = .ok ts) :
    ∃ ts', r'.readRest pattern = .ok ts' := by
  induction pattern generalizing r r' with
  | nil =>
    have hfinish : r.finish = .ok ts := h
    have hgoal : ∃ ts', r'.finish = .ok ts' := by
      cases halike with
      | between => exact ⟨_, rfl⟩
      | @stars p p' count _ _ start _ _ =>
        cases htoken : starToken p count start none with
        | error fault => simp [finish, htoken, bind, Except.bind] at hfinish
        | ok token => exact ⟨_, by simp only [finish, starToken_alike htoken]; rfl⟩
      | bracket | set => cases hfinish
    exact hgoal
  | cons c rest ih =>
    cases hstep : r.step c with
    | error fault =>
      rw [readRest_fault hstep] at h
      cases h
    | ok s =>
      rw [readRest_cons hstep] at h
      rcases step_alike halike hstep with ⟨s', hstep', halike'⟩
      rw [readRest_cons hstep']
      exact ih halike' h

end Reader

theorem reads_of_compile {pattern : List Char} {ts : List Token} (h : compile pattern = .ok ts)
    (hslash : '/' ∉ pattern) (htree : pattern ≠ ['*', '*']) : Reads pattern ts := by
  rcases Reader.reads_of_readRest _ (Nat.le_refl _) hslash h with ⟨more, hts, hreads⟩ | ⟨_, rfl⟩
  · have hall : ts = more := by simpa using hts
    exact hall ▸ hreads
  · exact absurd rfl htree

/-- The tokens of a pattern for one name accept what the pattern matches as it is written. -/
theorem accepts_iff_matches {pattern : List Char} {ts : List Token}
    (h : compile pattern = .ok ts) (hslash : '/' ∉ pattern) (htree : pattern ≠ ['*', '*'])
    (text : List Char) : accepts ts text = true ↔ Matches pattern text :=
  ((reads_of_compile h hslash htree).matches_iff text).symm

end Glob
end BootSigning
