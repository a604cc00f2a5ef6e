import BootSigning.Proofs.Runs

/-!
# Last changes — what a run leaves of an artifact

A path can have several turns in one run: a glob may select a bootloader that is a candidate too.
Each turn starts from what the turn before it left, so the last call that changes the path decides.

* `fromLastChange`: that call, with the calls after it;
* `installedLast`: the path was installed last and found well signed;
* `strippedLast`: the path was left without a signature last.

`signed_or_skipped_last` says which of the two holds of an artifact that a run reports as signed.
-/

namespace BootSigning

variable {σ : Type}

/-! ## Changes of a path -/

/-- The command may change what is at the path. -/
def Command.changes (p : Path) : Command → Bool
  | .stripSignature artifact => artifact == p
  | .privilegedCopy _ dest _ => dest == p
  | _ => false

/-- The last call that may change the path, and the calls after it. -/
def fromLastChange (p : Path) : List Call → Option (Call × List Call)
  | [] => none
  | call :: rest =>
    (fromLastChange p rest).or (if call.command.changes p then some (call, rest) else none)

/-- The last change of the path, and the call directly after it, are of a kind. -/
def lastIs (kind : Call → Call → Bool) (p : Path) (calls : List Call) : Bool :=
  match fromLastChange p calls with
  | some (call, next :: _) => kind call next
  | _ => false

/-- A file is installed, and the path is found well signed. -/
def installs (p : Path) : Call → Call → Bool
  | ⟨.privilegedCopy _ _ true, _⟩, ⟨.verify _ checked, reply⟩ => checked == p && reply.succeeded
  | _, _ => false

/-- A signature is removed, and the path cannot be signed. -/
def strips (p : Path) : Call → Call → Bool
  | ⟨.stripSignature _, _⟩, ⟨.sign _ _ _ signed, reply⟩ => signed == p && !reply.succeeded
  | _, _ => false

/-- The path was installed last, and found well signed right after. -/
def installedLast (p : Path) (calls : List Call) : Bool := lastIs (installs p) p calls

/-- The path lost its signature last, and got no other. -/
def strippedLast (p : Path) (calls : List Call) : Bool := lastIs (strips p) p calls

theorem fromLastChange_append (p : Path) (calls more : List Call) :
    fromLastChange p (calls ++ more) =
      (fromLastChange p more).or
        ((fromLastChange p calls).map fun found => (found.1, found.2 ++ more)) := by
  induction calls with
  | nil => simp [fromLastChange]
  | cons call rest ih =>
    simp only [List.cons_append, fromLastChange, ih, Option.or_assoc]
    congr 1
    cases fromLastChange p rest with
    | some found => rfl
    | none => cases call.command.changes p <;> rfl

section

variable {kind : Call → Call → Bool} {p : Path} {calls more : List Call}

theorem lastIs_append_right (h : lastIs kind p more = true) :
    lastIs kind p (calls ++ more) = true := by
  cases hmore : fromLastChange p more with
  | none => simp [lastIs, hmore] at h
  | some found =>
    rw [lastIs, hmore] at h
    rw [lastIs, fromLastChange_append, hmore]
    exact h

theorem lastIs_append_left (hmore : fromLastChange p more = none) (h : lastIs kind p calls = true) :
    lastIs kind p (calls ++ more) = true := by
  rw [lastIs, fromLastChange_append, hmore]
  rw [lastIs] at h
  rcases hcalls : fromLastChange p calls with _ | ⟨call, _ | ⟨next, rest⟩⟩
  · simp [hcalls] at h
  · simp [hcalls] at h
  · rw [hcalls] at h
    exact h

theorem unchanged_append (h : fromLastChange p calls = none)
    (hmore : fromLastChange p more = none) : fromLastChange p (calls ++ more) = none := by
  rw [fromLastChange_append, h, hmore]
  rfl

end

/-! ## The last change of a deed -/

section

variable {session : Session σ} {target p : Path} {calls : List Call}

/-- What a file that was signed, or could not be, was left as. -/
theorem sign_last {outcome : Outcome} (h : SignCalls session.signer target calls (.ok outcome)) :
    match outcome with
    | .signed => installedLast target calls = true
    | .skipped => strippedLast target calls = true := by
  cases h with
  | skipped hname hmade =>
    simp [strippedLast, lastIs, fromLastChange, Command.changes, Signer.signing, strips, hmade]
  | installed hname hmade hinstall =>
    cases hinstall with
    | signed hcopy hcheck =>
      simp [installedLast, lastIs, fromLastChange, Command.changes, Signer.signing,
        Signer.checking, installs, hcheck]

/-- Signing a file changes no other. -/
theorem sign_other {r : Except SignError Outcome} (hp : target ≠ p)
    (h : SignCalls session.signer target calls r) : fromLastChange p calls = none := by
  cases h with
  | nameless => rfl
  | skipped => simp [fromLastChange, Command.changes, Signer.signing, hp]
  | installed hname hmade hinstall =>
    cases hinstall <;>
      simp [fromLastChange, Command.changes, Signer.signing, Signer.checking, hp]

/-- A new key for a file changes no other. -/
theorem inject_other {keyDir ws : Path} {r : Except SignError Unit} (hp : target ≠ p)
    (h : InjectCalls keyDir ws target calls r) : fromLastChange p calls = none := by
  cases h with
  | nameless => rfl
  | notUpdated => rfl
  | updated => simp [fromLastChange, Command.changes, hp]

theorem classify_unchanged {ws : Path} {verdict : Bool}
    (h : ClassifyCalls ws target calls verdict) : fromLastChange p calls = none := by
  cases h <;> rfl

end

/-! ## The last change of a run -/

/-- The last change of a path is its installation, or the removal before a signing that failed. -/
def Decided (p : Path) (deeds : List Deed) (calls : List Call) : Prop :=
  installedLast p calls = true ∨
    strippedLast p calls = true ∧ Deed.signed p (.ok .skipped) ∈ deeds

/-- A path that was signed, or could not be, is decided; every other one is unchanged. -/
def Settled (p : Path) (deeds : List Deed) (calls : List Call) : Prop :=
  (fromLastChange p calls = none ∧ ∀ r, Deed.signed p r ∉ deeds) ∨ Decided p deeds calls

section

variable {session : Session σ} {target p : Path} {deed : Deed} {deeds : List Deed}
  {calls more : List Call}

theorem Decided.after (h : Decided p deeds more) : Decided p (deed :: deeds) (calls ++ more) := by
  rcases h with hinstalled | ⟨hstripped, hskipped⟩
  · exact .inl (lastIs_append_right hinstalled)
  · exact .inr ⟨lastIs_append_right hstripped, List.mem_cons_of_mem _ hskipped⟩

/-- Deeds that come first and do not change the path make no difference. -/
theorem Settled.after (hcalls : fromLastChange p calls = none) (hdeed : ∀ r, Deed.signed p r ≠ deed)
    (h : Settled p deeds more) : Settled p (deed :: deeds) (calls ++ more) := by
  rcases h with ⟨hmore, habsent⟩ | hdecided
  · refine .inl ⟨unchanged_append hcalls hmore, fun r hmem => ?_⟩
    rcases List.mem_cons.1 hmem with heq | hmem
    · exact hdeed r heq
    · exact habsent r hmem
  · exact .inr hdecided.after

/-- Signing a path settles it, unless it is changed later. -/
theorem Settled.after_sign (p : Path) {outcome : Outcome}
    (hsign : SignCalls session.signer target calls (.ok outcome)) (h : Settled p deeds more) :
    Settled p (.signed target (.ok outcome) :: deeds) (calls ++ more) := by
  by_cases hp : target = p
  · subst hp
    -- a later change decides; without one, this signing is the last change
    rcases h with ⟨hmore, _⟩ | hdecided
    · have hlast := sign_last hsign
      cases outcome with
      | signed =>
        have hinstalled := lastIs_append_left hmore hlast
        exact .inr (.inl hinstalled)
      | skipped =>
        have hstripped := lastIs_append_left hmore hlast
        exact .inr (.inr ⟨hstripped, List.mem_cons_self⟩)
    · exact .inr hdecided.after
  · refine h.after (sign_other hp hsign) fun r heq => ?_
    cases heq
    exact hp rfl

/-- A new key for a path is followed by its signing, which settles it. -/
theorem Settled.after_inject {keyDir ws : Path} {r : Except SignError Outcome}
    (hinject : InjectCalls keyDir ws target calls (.ok ()))
    (h : Settled p (.signed target r :: deeds) more) :
    Settled p (.injected target (.ok ()) :: .signed target r :: deeds) (calls ++ more) := by
  by_cases hp : target = p
  · subst hp
    -- the signing that follows has decided already
    rcases h with ⟨_, habsent⟩ | hdecided
    · exact absurd List.mem_cons_self (habsent r)
    · exact .inr hdecided.after
  · exact h.after (inject_other hp hinject) nofun

end

/-- A run without an error settles every path. -/
theorem recorded_settled {session : Session σ} {turns : List Turn} {s s' : Summary}
    {deeds : List Deed} {calls : List Call} (htaken : Taken turns s deeds (.ok s'))
    (hrecorded : Recorded session deeds calls) (p : Path) : Settled p deeds calls := by
  generalize hr : (Except.ok s' : Except SignError Summary) = r at htaken
  -- from the last turn to the first: what comes earlier cannot undo what comes later
  induction htaken generalizing calls with
  | done =>
    cases hrecorded
    exact .inl ⟨rfl, fun _ => List.not_mem_nil⟩
  | signed _ ih =>
    rcases hrecorded with _ | ⟨hsign, hrest⟩
    exact (ih hrest hr).after_sign p hsign
  | notSigned | notInjected => cases hr
  | other _ ih =>
    rcases hrecorded with _ | ⟨hclassify, hrest⟩
    exact (ih hrest hr).after (classify_unchanged hclassify) nofun
  | treated hsigned ih =>
    rcases hrecorded with _ | ⟨hclassify, _ | ⟨hinject, hrest⟩⟩
    have hsettled := ih hrest hr
    cases hsigned with
    | signed =>
      have hinjected := hsettled.after_inject hinject
      exact hinjected.after (classify_unchanged hclassify) nofun
    | notSigned => cases hr

/-! ## The summary of a run -/

section

variable {turns : List Turn} {s s' : Summary} {deeds : List Deed}

/-- What is reported as signed was signed. -/
theorem Taken.deed_of_signed (h : Taken turns s deeds (.ok s')) {a : Artifact}
    (ha : a ∈ s'.signed) : a ∈ s.signed ∨ Deed.signed a.path (.ok .signed) ∈ deeds := by
  generalize hr : (Except.ok s' : Except SignError Summary) = r at h
  induction h with
  | done =>
    cases hr
    exact .inl ha
  | @signed first outcome _ s _ _ _ ih =>
    rcases ih hr with hs | hmem
    · -- in the summary after this turn: from before, or of this very turn
      cases outcome with
      | skipped => exact .inl hs
      | signed =>
        rcases List.mem_append.1 hs with hs | hfirst
        · exact .inl hs
        · cases List.mem_singleton.1 hfirst
          exact .inr List.mem_cons_self
    · exact .inr (List.mem_cons_of_mem _ hmem)
  | notSigned | notInjected => cases hr
  | other _ ih => exact (ih hr).imp id (List.mem_cons_of_mem _)
  | treated _ ih =>
    exact (ih hr).imp id fun hmem => List.mem_cons_of_mem _ (List.mem_cons_of_mem _ hmem)

/-- What was skipped, now or before, is reported as skipped. -/
theorem Taken.skipped_of_deed (h : Taken turns s deeds (.ok s')) {p : Path}
    (hp : (∃ b ∈ s.skipped, b.path = p) ∨ Deed.signed p (.ok .skipped) ∈ deeds) :
    ∃ b ∈ s'.skipped, b.path = p := by
  generalize hr : (Except.ok s' : Except SignError Summary) = r at h
  induction h with
  | done =>
    cases hr
    exact hp.resolve_right List.not_mem_nil
  | @signed first outcome _ s _ _ _ ih =>
    refine ih ?_ hr
    rcases hp with ⟨b, hb, hpath⟩ | hmem
    · refine .inl ⟨b, ?_, hpath⟩
      cases outcome with
      | signed => exact hb
      | skipped => exact List.mem_append_left _ hb
    · rcases List.mem_cons.1 hmem with heq | hmem
      · cases heq
        exact .inl ⟨first, List.mem_append_right _ List.mem_cons_self, rfl⟩
      · exact .inr hmem
  | notSigned | notInjected => cases hr
  | other _ ih =>
    rcases hp with hs | hmem
    · exact ih (.inl hs) hr
    · rcases hmem with _ | ⟨_, hmem⟩
      exact ih (.inr hmem) hr
  | treated _ ih =>
    rcases hp with hs | hmem
    · exact ih (.inl hs) hr
    · rcases hmem with _ | ⟨_, _ | ⟨_, hmem⟩⟩
      exact ih (.inr hmem) hr

end

/-! ## All runs -/

/--
What a run reports as signed was installed last and found well signed, or it lost its signature
last, in a later turn that could not sign it and is reported as skipped.
-/
theorem signed_or_skipped_last (around : Surroundings) (tools : Tools σ) (request : SignRequest)
    (w : World σ) {summary : Summary}
    (h : ((signTargetDir around tools request).run.run w).1 = .ok summary) :
    ∃ calls, ((signTargetDir around tools request).run.run w).2.calls = w.calls ++ calls ∧
      ∀ a ∈ summary.signed, installedLast a.path calls = true ∨
        strippedLast a.path calls = true ∧ ∃ b ∈ summary.skipped, b.path = a.path := by
  rcases signTargetDir_recorded around tools request w with ⟨_, e, he⟩ |
    ⟨fs, ws, plan, w₀, steps, calls, taken, _, htaken, hrecorded, hcalls, hok⟩
  · rw [he] at h
    cases h
  · have htaken_ok : taken = .ok summary := hok summary h
    subst htaken_ok
    refine ⟨calls, hcalls, fun a ha => ?_⟩
    have hsigned := (htaken.deed_of_signed ha).resolve_left List.not_mem_nil
    rcases recorded_settled htaken hrecorded a.path with ⟨_, habsent⟩ | hinstalled | hstripped
    · exact absurd hsigned (habsent _)
    · exact .inl hinstalled
    · exact .inr ⟨hstripped.1, htaken.skipped_of_deed (.inr hstripped.2)⟩

theorem signed_or_skipped_last_small :
    ∃ summary, (SmallBoot.run 2).1 = .ok summary ∧
      ∃ calls, (SmallBoot.run 2).2.calls = calls ∧
        ∀ a ∈ summary.signed, installedLast a.path calls = true ∨
          strippedLast a.path calls = true ∧ ∃ b ∈ summary.skipped, b.path = a.path := by
  have hok : (SmallBoot.run 2).1.isOk = true := by decide +kernel
  cases hsummary : (SmallBoot.run 2).1 with
  | error e => simp [hsummary, Except.isOk, Except.toBool] at hok
  | ok summary =>
    exact ⟨summary, rfl, signed_or_skipped_last SmallBoot.surroundings ⟨{}, SmallBoot.executor 2⟩
      SmallBoot.request ⟨SmallBoot.files, 0, []⟩ hsummary⟩

/--
A bootloader that was signed as such and could not be signed again as a candidate: it is reported
both as signed and as skipped, and its last change is not its installation.
-/
theorem signed_not_installed_last :
    (SmallBoot.run 1).1.toOption = some ⟨[⟨"/boot/efi/boot/bootx64.efi", .bootloader⟩],
        [⟨"/boot/efi/boot/bootx64.efi", .crdyboot⟩], [⟨"/boot/efi/boot/bootx64.efi", .crdyboot⟩]⟩ ∧
      installedLast "/boot/efi/boot/bootx64.efi" (SmallBoot.run 1).2.calls = false := by
  decide +kernel

end BootSigning
