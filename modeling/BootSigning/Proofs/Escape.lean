import BootSigning.Plan

/-!
# Escape — directories laid into patterns

A directory whose name is taken literally becomes a pattern in which every special character stands
in a set of its own.  Such patterns have a simple form, `Glob.Simple`: no star, and each set holds
one character.  The form survives the split at slashes, so a simple pattern is read without fault
both as a whole and component by component.  In particular

* `ArtifactGlob.select_simple`: a simple pattern selects something below every directory.
-/

namespace BootSigning
namespace Glob

variable {cs : List Char}

/-- No star, and each set holds one character, which is neither a slash nor a mark of negation. -/
inductive Simple : List Char → Prop where
  | nil : Simple []
  | plain {c : Char} {rest : List Char} (hstar : c ≠ '*') (hset : c ≠ '[') (hrest : Simple rest) :
      Simple (c :: rest)
  | set {c : Char} {rest : List Char} (hnot : c ≠ '!') (hslash : c ≠ '/') (hrest : Simple rest) :
      Simple ('[' :: c :: ']' :: rest)

/-! ## Escaped texts are simple -/

theorem Simple.append {ds : List Char} (h : Simple cs) (hds : Simple ds) : Simple (cs ++ ds) := by
  induction h with
  | nil => exact hds
  | plain hstar hset _ ih => exact .plain hstar hset ih
  | set hnot hslash _ ih => exact .set hnot hslash ih

theorem simple_escape (text : List Char) : Simple (escape text) := by
  induction text with
  | nil => exact .nil
  | cons c rest ih =>
    -- Special characters get a set of their own; the others are neither stars nor brackets.
    have hcons : escape (c :: rest) =
        (if isMeta c || c == ']' then ['[', c, ']'] else [c]) ++ escape rest := rfl
    rw [hcons]
    by_cases hspecial : (isMeta c || c == ']') = true
    · rw [if_pos hspecial]
      refine .set ?_ ?_ ih
      · rintro rfl
        simp [isMeta] at hspecial
      · rintro rfl
        simp [isMeta] at hspecial
    · rw [if_neg hspecial]
      refine .plain ?_ ?_ ih
      · rintro rfl
        simp [isMeta] at hspecial
      · rintro rfl
        simp [isMeta] at hspecial

/-! ## Components of simple patterns are simple -/

theorem Simple.tail_of_slash (h : Simple ('/' :: cs)) : Simple cs := by
  cases h with
  | plain _ _ hrest => exact hrest

/-- A character in front of the first piece. -/
theorem splitOn_of_ne_slash {c : Char} (hslash : c ≠ '/') (cs : List Char) :
    ∃ head tail, cs.splitOn '/' = head :: tail ∧ (c :: cs).splitOn '/' = (c :: head) :: tail := by
  cases hsplit : cs.splitOn '/' with
  | nil => exact absurd hsplit (List.splitOn_ne_nil '/' cs)
  | cons head tail =>
    exact ⟨head, tail, rfl, by simp [List.splitOn_cons_eq_if_modifyHead, hslash, hsplit]⟩

theorem Simple.pieces (h : Simple cs) : ∀ piece ∈ cs.splitOn '/', Simple piece := by
  induction h with
  | nil =>
    intro piece hpiece
    simp only [List.splitOn_nil, List.mem_singleton] at hpiece
    exact hpiece ▸ .nil
  | @plain c rest hstar hset _ ih =>
    intro piece hpiece
    by_cases hslash : c = '/'
    · simp only [hslash, List.splitOn_cons_eq_if_modifyHead, BEq.rfl, if_true,
        List.mem_cons] at hpiece
      rcases hpiece with rfl | hpiece
      · exact .nil
      · exact ih piece hpiece
    · rcases splitOn_of_ne_slash hslash rest with ⟨head, tail, hsplit, hcons⟩
      rw [hcons] at hpiece
      rw [hsplit] at ih
      rcases List.mem_cons.1 hpiece with rfl | hpiece
      · exact .plain hstar hset (ih head List.mem_cons_self)
      · exact ih piece (List.mem_cons_of_mem _ hpiece)
  | @set c rest hnot hslash _ ih =>
    intro piece hpiece
    -- No slash within the set, so all of it goes in front of the first piece.
    rcases splitOn_of_ne_slash (c := ']') (by decide) rest with ⟨head, tail, hsplit, h₁⟩
    have h₂ : (c :: ']' :: rest).splitOn '/' = (c :: ']' :: head) :: tail := by
      simp [List.splitOn_cons_eq_if_modifyHead c, hslash, h₁]
    have h₃ : ('[' :: c :: ']' :: rest).splitOn '/' = ('[' :: c :: ']' :: head) :: tail := by
      simp [List.splitOn_cons_eq_if_modifyHead '[', h₂]
    rw [h₃] at hpiece
    rw [hsplit] at ih
    rcases List.mem_cons.1 hpiece with rfl | hpiece
    · exact .set hnot hslash (ih head List.mem_cons_self)
    · exact ih piece (List.mem_cons_of_mem _ hpiece)

/-! ## Simple patterns are read without fault -/

/-- A simple pattern takes the reader from between two tokens to between two tokens. -/
theorem Simple.foldlM_step (h : Simple cs) : ∀ r : Reader, r.reading = .between →
    ∃ r' : Reader, cs.foldlM Reader.step r = .ok r' ∧ r'.reading = .between := by
  induction h with
  | nil => exact fun r hr => ⟨r, rfl, hr⟩
  | @plain c rest hstar hset _ ih =>
    intro r hr
    have hstep : Reader.step r c = .ok (r.begin c) := by simp [Reader.step, hr]
    have hbegin : (r.begin c).reading = .between := by
      unfold Reader.begin
      rw [if_neg hstar, if_neg hset]
      split <;> rfl
    rcases ih _ hbegin with ⟨r', hfold, hr'⟩
    exact ⟨r', by simpa [hstep, bind, Except.bind] using hfold, hr'⟩
  | @set c rest hnot hslash _ ih =>
    intro r hr
    rcases r with ⟨position, fresh, tokens, reading⟩
    cases hr
    -- after the closing bracket the reader is between two tokens again
    let closed : Reader := ⟨position + 1 + 1 + 1, false, setToken false [c] :: tokens, .between⟩
    rcases ih closed rfl with ⟨r', hfold, hr'⟩
    refine ⟨r', ?_, hr'⟩
    simpa [Reader.step, Reader.begin, Reader.advance, hnot, closed, bind, Except.bind] using hfold

theorem Simple.compile_isOk (h : Simple cs) : ∃ tokens, compile cs = .ok tokens := by
  rcases h.foldlM_step .start rfl with ⟨r, hfold, hr⟩
  exact ⟨r.tokens.reverse, by simp [compile, hfold, Reader.finish, hr, bind, Except.bind]⟩

theorem Simple.segment_isOk (h : Simple cs) : ∃ segment, Segment.compile cs = .ok segment := by
  rcases h.compile_isOk with ⟨tokens, htokens⟩
  simp only [Segment.compile, htokens, bind, Except.bind]
  split
  · exact ⟨_, rfl⟩
  · split <;> exact ⟨_, rfl⟩

theorem mapM_isOk {α β ε : Type} {f : α → Except ε β} :
    ∀ {items : List α}, (∀ item ∈ items, ∃ b, f item = .ok b) → ∃ bs, items.mapM f = .ok bs := by
  intro items
  induction items with
  | nil => exact fun _ => ⟨[], rfl⟩
  | cons item rest ih =>
    intro h
    rcases h item List.mem_cons_self with ⟨b, hb⟩
    rcases ih fun other hother => h other (List.mem_cons_of_mem _ hother) with ⟨bs, hbs⟩
    exact ⟨b :: bs, by simp [hb, hbs, bind, Except.bind, pure, Except.pure]⟩

theorem mem_componentsOf {piece : List Char} (h : piece ∈ componentsOf cs) :
    piece ∈ cs.splitOn '/' := by
  simp only [componentsOf] at h
  split at h
  · exact (List.dropLast_sublist _).subset h
  · exact h

theorem Simple.search_isOk (h : Simple cs) : ∃ search, Search.ofPattern cs = .ok search := by
  rcases h.compile_isOk with ⟨tokens, htokens⟩
  -- a leading slash says where to start and is no part of the components
  have hbody : Simple (if cs.head? == some '/' then cs.drop 1 else cs) := by
    cases cs with
    | nil => exact h
    | cons c rest =>
      by_cases hslash : c = '/'
      · simpa [hslash] using (hslash ▸ h).tail_of_slash
      · simpa [hslash] using h
  rcases mapM_isOk (f := Segment.compile) fun piece hpiece =>
    (hbody.pieces piece (mem_componentsOf hpiece)).segment_isOk with ⟨segments, hsegments⟩
  simp only [Search.ofPattern, htokens, hsegments, bind, Except.bind]
  exact ⟨_, rfl⟩

end Glob

/-- A simple pattern can be evaluated below every directory. -/
theorem ArtifactGlob.select_simple {g : ArtifactGlob} (h : Glob.Simple g.pattern.toList)
    (fs : FileSystem) (dir : Path) : ∃ selection, g.select fs dir = .ok selection := by
  -- what is below a directory: its escaped name, a slash and the pattern
  have hslash : Glob.Simple ('/' :: g.pattern.toList) := .plain (by decide) (by decide) h
  rcases ((Glob.simple_escape dir.text.toList).append hslash).search_isOk with ⟨search, hsearch⟩
  exact ⟨choose fs (search.run fs), by simp only [select, below, hsearch]⟩

theorem ArtifactGlob.pattern_ofPattern {pattern : String} {g : ArtifactGlob}
    (h : ofPattern pattern = .ok g) : g.pattern = pattern := by
  unfold ofPattern at h
  split at h
  · cases h
    rfl
  · cases h

/-- A plan has the pattern it was made from, and a fixed one for syslinux kernels. -/
theorem SigningPlan.patterns_ofPattern {pattern : String} {plan : SigningPlan}
    (h : ofPattern pattern = .ok plan) :
    plan.bootloaders.pattern = pattern ∧ plan.syslinuxKernels.pattern = syslinuxPattern := by
  unfold ofPattern at h
  cases hloaders : ArtifactGlob.ofPattern pattern with
  | error e => simp [hloaders, bind, Except.bind] at h
  | ok loaders =>
    cases hkernels : ArtifactGlob.ofPattern syslinuxPattern with
    | error e => simp [hloaders, hkernels, bind, Except.bind] at h
    | ok kernels =>
      simp only [hloaders, hkernels, bind, Except.bind, pure, Except.pure, Except.ok.injEq] at h
      subst h
      exact ⟨ArtifactGlob.pattern_ofPattern hloaders, ArtifactGlob.pattern_ofPattern hkernels⟩

/-- The syslinux kernels of a plan can be looked for below every directory. -/
theorem SigningPlan.select_syslinuxKernels {pattern : String} {plan : SigningPlan}
    (h : ofPattern pattern = .ok plan) (fs : FileSystem) (dir : Path) :
    ∃ selection, plan.syslinuxKernels.select fs dir = .ok selection := by
  refine ArtifactGlob.select_simple ?_ fs dir
  -- the pattern is fixed: neither a star nor a bracket is in it
  have hchars : syslinuxPattern.toList = ['v', 'm', 'l', 'i', 'n', 'u', 'z', '.', '?'] := by
    decide
  rw [(patterns_ofPattern h).2, hchars]
  repeat
    first
    | exact .nil
    | refine .plain (by decide) (by decide) ?_

end BootSigning
