import BootSigning.Proofs.History
import BootSigning.Proofs.Lookup
import BootSigning.Session

/-!
# Operations — the calls of a session's three operations

For each operation of a session this file lists the sequences of calls it can make, each with the
result that goes with it:

* `SignCalls`: removal, signature, installation, check, up to the first that counts as failed;
* `InjectCalls`: the update of the section and the copy over the artifact;
* `ClassifyCalls`: the one extraction of the table.

`makes_sign`, `makes_inject` and `makes_classify` say that there are no others.
-/

namespace BootSigning

variable {σ : Type}

/-! ## Replies -/

namespace Reply

variable {reply : Reply} {text : String}

theorem succeeded_of_check (h : reply.check = .ok ()) : reply.succeeded = true := by
  cases reply with
  | finished output =>
    cases hsuccess : output.status.success with
    | true => exact hsuccess
    | false => simp [check, hsuccess] at h
  | notStarted e => cases h

theorem not_succeeded_of_check (h : reply.check = .error text) : reply.succeeded = false := by
  cases reply with
  | finished output =>
    cases hsuccess : output.status.success with
    | false => exact hsuccess
    | true => simp [check, hsuccess] at h
  | notStarted e => rfl

theorem check_of_succeeded (h : reply.succeeded = true) : reply.check = .ok () := by
  cases reply with
  | finished output => exact if_pos h
  | notStarted e => cases h

theorem check_of_not_succeeded (h : reply.succeeded = false) :
    ∃ text, reply.check = .error text := by
  cases reply with
  | finished output =>
    have hfailed : ¬output.status.success = true := by simpa [succeeded] using h
    exact ⟨_, if_neg hfailed⟩
  | notStarted e => exact ⟨_, rfl⟩

theorem succeeded_iff :
    reply.succeeded = true ↔ ∃ output, reply = .finished output ∧ output.status.raw = 0 := by
  cases reply with
  | finished output => simp [succeeded, WaitStatus.success]
  | notStarted e => simp [succeeded]

/-- A program that was not started fails for the error of that, any other for its own reasons. -/
theorem check_eq_error_iff :
    reply.check = .error text ↔
      (∃ output, reply = .finished output ∧ output.status.raw ≠ 0 ∧
        text = output.failureMessage) ∨
      ∃ e, reply = .notStarted e ∧ text = e.message := by
  cases reply with
  | finished output =>
    by_cases hraw : output.status.raw = 0
    · simp [check, WaitStatus.success, hraw]
    · simpa [check, WaitStatus.success, hraw] using eq_comm
  | notStarted e => simpa [check] using eq_comm

end Reply

/-! ## Signing -/

namespace Signer

variable (s : Signer σ) (target : Path)

/-- The signed copy of a file with the given name. -/
def copyOf (name : Name) : Path := s.workspace.file ⟨name⟩

/-- The command that writes a signed copy. -/
def signing (copy : Path) : Command :=
  .sign s.credentials.signingKey s.credentials.signingCert copy target

/-- The command that checks an installed file. -/
def checking : Command := .verify s.credentials.verificationCert target

end Signer

/-- The calls of putting a signed copy in place. -/
inductive InstallCalls (s : Signer σ) (copy target : Path) :
    List Call → Except SignError Outcome → Prop where
  | notInstalled {copied : Reply} {text : String} (hcopy : copied.check = .error text) :
      InstallCalls s copy target [⟨.privilegedCopy copy target true, copied⟩]
        (.error (.installFailed target text))
  | notVerified {copied checked : Reply} {text : String} (hcopy : copied.succeeded = true)
      (hcheck : checked.check = .error text) :
      InstallCalls s copy target
        [⟨.privilegedCopy copy target true, copied⟩, ⟨s.checking target, checked⟩]
        (.error (.verificationFailed target text))
  | signed {copied checked : Reply} (hcopy : copied.succeeded = true)
      (hcheck : checked.succeeded = true) :
      InstallCalls s copy target
        [⟨.privilegedCopy copy target true, copied⟩, ⟨s.checking target, checked⟩] (.ok .signed)

/-- The calls of signing a file. -/
inductive SignCalls (s : Signer σ) (target : Path) :
    List Call → Except SignError Outcome → Prop where
  | nameless (hname : target.fileName? = none) :
      SignCalls s target [] (.error (.invalidArtifactPath target))
  | skipped {name : Name} {stripped made : Reply} (hname : target.fileName? = some name)
      (hmade : made.succeeded = false) :
      SignCalls s target
        [⟨.stripSignature target, stripped⟩, ⟨s.signing target (s.copyOf name), made⟩]
        (.ok .skipped)
  | installed {name : Name} {stripped made : Reply} {calls : List Call}
      {result : Except SignError Outcome} (hname : target.fileName? = some name)
      (hmade : made.succeeded = true)
      (hinstall : InstallCalls s (s.copyOf name) target calls result) :
      SignCalls s target
        (⟨.stripSignature target, stripped⟩ :: ⟨s.signing target (s.copyOf name), made⟩ :: calls)
        result

theorem makes_install (s : Signer σ) (copy target : Path) :
    Makes (s.install copy target).run (InstallCalls s copy target) := by
  refine Makes.called fun copied => ?_
  cases hcopy : copied.check with
  | error text => exact Makes.pure (.notInstalled hcopy)
  | ok =>
    refine Makes.called fun checked => ?_
    cases hcheck : checked.check with
    | error text => exact Makes.pure (.notVerified (Reply.succeeded_of_check hcopy) hcheck)
    | ok =>
      exact Makes.pure
        (.signed (Reply.succeeded_of_check hcopy) (Reply.succeeded_of_check hcheck))

theorem makes_sign (s : Signer σ) (target : Path) :
    Makes (s.sign target).run (SignCalls s target) := by
  refine Makes.logged (Makes.named .nameless fun name hname => ?_)
  refine Makes.called fun stripped => ?_
  -- What follows the removal of the signature does not depend on how that went.
  have hrest : Makes (s.produce (s.copyOf name) target).run
      fun calls r => SignCalls s target (⟨.stripSignature target, stripped⟩ :: calls) r := by
    refine Makes.called fun made => ?_
    cases hmade : made.check with
    | error text =>
      -- tolerated: two warnings, and the file counts as skipped
      exact Makes.logged (Makes.logged
        (Makes.pure (.skipped hname (Reply.not_succeeded_of_check hmade))))
    | ok =>
      exact (makes_install s (s.copyOf name) target).mono fun calls r hinstall =>
        .installed hname (Reply.succeeded_of_check hmade) hinstall
  cases hstrip : stripped.check with
  | error text => exact Makes.logged hrest
  | ok => exact hrest

/-! ## Injecting -/

/-- The calls of putting the key into an artifact. -/
inductive InjectCalls (keyDir workspace artifact : Path) :
    List Call → Except SignError Unit → Prop where
  | nameless (hname : artifact.fileName? = none) :
      InjectCalls keyDir workspace artifact [] (.error (.invalidArtifactPath artifact))
  | notUpdated {name : Name} {updated : Reply} {text : String}
      (hname : artifact.fileName? = some name) (hupdate : updated.check = .error text) :
      InjectCalls keyDir workspace artifact
        [⟨.updateSection artifact Injection.sectionName (Injection.payload keyDir)
          (Injection.copyIn workspace name), updated⟩]
        (.error (.injectionFailed artifact .updateSection text))
  | updated {name : Name} {updated copied : Reply} {result : Except SignError Unit}
      (hname : artifact.fileName? = some name) (hupdate : updated.succeeded = true)
      (hcopy : result = copied.check.mapError (.injectionFailed artifact .copy)) :
      InjectCalls keyDir workspace artifact
        [⟨.updateSection artifact Injection.sectionName (Injection.payload keyDir)
            (Injection.copyIn workspace name), updated⟩,
          ⟨.privilegedCopy (Injection.copyIn workspace name) artifact false, copied⟩]
        result

theorem mapError_ok {ε ε' α : Type} (f : ε → ε') (a : α) :
    (Except.ok a : Except ε α).mapError f = .ok a := rfl

theorem mapError_error {ε ε' α : Type} (f : ε → ε') (e : ε) :
    (Except.error e : Except ε α).mapError f = .error (f e) := rfl

/-- A call that must succeed comes to what its answer says. -/
theorem makes_mustRun (tools : Tools σ) (command : Command) (failure : String → SignError) :
    Makes (Injection.mustRun tools command failure).run fun calls r =>
      ∃ reply : Reply, calls = [⟨command, reply⟩] ∧ r = reply.check.mapError failure := by
  refine Makes.called fun reply => ?_
  cases hcheck : reply.check with
  | error text => exact Makes.pure ⟨reply, rfl, by rw [hcheck]; rfl⟩
  | ok => exact Makes.pure ⟨reply, rfl, by rw [hcheck]; rfl⟩

theorem makes_inject (tools : Tools σ) (keyDir workspace artifact : Path) :
    Makes (Injection.inject tools keyDir workspace artifact).run
      (InjectCalls keyDir workspace artifact) := by
  refine Makes.named .nameless fun name hname => Makes.logged ?_
  refine Makes.attempt (makes_mustRun tools _ _) ?_ ?_
  · -- the section was updated: the copy is made, and its answer is the result
    rintro calls ⟨⟩ ⟨updated, rfl, hupdate⟩
    refine (makes_mustRun tools _ _).mono ?_
    rintro calls result ⟨copied, rfl, hcopy⟩
    cases hcheck : updated.check with
    | error text => simp [hcheck, mapError_error] at hupdate
    | ok => exact .updated hname (Reply.succeeded_of_check hcheck) hcopy
  · -- it was not: nothing is copied
    rintro calls e ⟨updated, rfl, hupdate⟩
    cases hcheck : updated.check with
    | error text =>
      simp only [hcheck, mapError_error, Except.error.injEq] at hupdate
      exact hupdate ▸ .notUpdated hname hcheck
    | ok => simp [hcheck, mapError_ok] at hupdate

/-! ## Classifying -/

/-- The calls of classifying an artifact; the verdict is yes only if the tool succeeded. -/
inductive ClassifyCalls (workspace artifact : Path) : List Call → Bool → Prop where
  | nameless : ClassifyCalls workspace artifact [] false
  | dumped {name : Name} {reply : Reply} {verdict : Bool} (hname : artifact.fileName? = some name)
      (hverdict : verdict = true → reply.succeeded = true) :
      ClassifyCalls workspace artifact
        [⟨.dumpSection artifact Sbat.sectionName (Sbat.fileIn workspace)
          (Sbat.scratchIn workspace name), reply⟩]
        verdict

/-- What a text says about an artifact; without one, nothing. -/
def tableVerdict (text : Except Fault String) : Bool :=
  match text with
  | .error _ => false
  | .ok text => (Sbat.Table.parse text).isCrdyboot

/-- A verdict depends on the table alone, and only logs. -/
theorem judge_run (artifact table : Path) (w : World σ) :
    ((Sbat.judge artifact table).run w).1 = tableVerdict (w.files.readText table) ∧
      Quiet w ((Sbat.judge artifact table).run w).2 := by
  rw [Sbat.judge, run_files_action]
  cases w.files.readText table with
  | error fault => exact ⟨rfl, Quiet.log _ _ _ w⟩
  | ok text => exact ⟨rfl, Quiet.log _ _ _ w⟩

/-- A verdict only logs, also where there is no table to judge. -/
theorem conclude_quiet (artifact : Path) (r : Except SignError Path) (w : World σ) :
    Quiet w ((Sbat.conclude artifact r).run w).2 := by
  cases r with
  | ok table => exact (judge_run artifact table w).2
  | error e => exact Quiet.log _ _ _ w

/-- From a file that was just made empty nothing is read. -/
theorem read_of_emptied {fs fs' : FileSystem} {p : Path} {bytes : List UInt8}
    (h : fs.write p [] = .ok fs') (hread : fs'.read p = .ok bytes) : bytes = [] := by
  rcases FileSystem.stat_of_read hread with ⟨mode, hfile⟩ | ⟨_, hnone⟩
  · rcases FileSystem.stat_of_write h with ⟨mode', hempty⟩ | hsink
    · cases hfile.symm.trans hempty
      rfl
    · cases hfile.symm.trans hsink
  · exact hnone

/-- A file that was just made empty has no table in it. -/
theorem tableVerdict_of_emptied {fs fs' : FileSystem} {table : Path}
    (h : fs.write table [] = .ok fs') : tableVerdict (fs'.readText table) = false := by
  rw [FileSystem.readText]
  cases hread : fs'.read table with
  | error fault => rfl
  | ok bytes =>
    rw [read_of_emptied h hread]
    rfl

theorem change_run (edit : FileSystem → Except Fault FileSystem) (w : World σ) :
    (change edit).run.run w =
      match edit w.files with
      | .ok fs => (.ok (), { w with files := fs })
      | .error fault => (.error (.io fault), w) := by
  rw [change, run_files]
  cases edit w.files <;> rfl

/-- After a failure of the tool that is logged, and the table is made empty if that can be done. -/
theorem settle_failed (artifact table : Path) {reply : Reply} (hreply : reply.succeeded = false)
    (w : World σ) :
    ∃ logged, Quiet w logged ∧ (Sbat.settle artifact table reply).run.run w =
      match w.files.write table [] with
      | .ok fs => (.ok table, logged.withFiles fs)
      | .error fault => (.error (.io fault), logged) := by
  let message := s!"no {Sbat.sectionName} section in {artifact}"
  let logged := ((log .debug .sbat message : Action σ Unit).run w).2
  have hquiet : Quiet w logged := Quiet.log _ _ _ w
  have hsettle : (Sbat.settle artifact table reply).run.run w =
      (change (fun fs => fs.write table []) >>= fun _ => pure table : Attempt σ Path).run.run
        logged := by
    rw [Sbat.settle, hreply]
    rfl
  refine ⟨logged, hquiet, ?_⟩
  rw [hsettle, run_bind, change_run, hquiet.files]
  cases w.files.write table [] <;> rfl

/-- After a failure of the tool the verdict is no, and nothing more is called. -/
theorem conclude_failed (artifact table : Path) {reply : Reply} (hreply : reply.succeeded = false) :
    Makes ((Sbat.settle artifact table reply).run >>= Sbat.conclude artifact : Action σ Bool)
      fun calls verdict => calls = [] ∧ verdict = false := by
  intro w
  rcases settle_failed artifact table hreply w with ⟨logged, hlogged, hsettle⟩
  have hcalls : logged.calls = w.calls ++ [] := by rw [List.append_nil, hlogged.calls]
  rw [StateT.run_bind, hsettle]
  cases hwrite : w.files.write table [] with
  | error fault => exact ⟨[], (conclude_quiet artifact _ logged).calls.trans hcalls, rfl, rfl⟩
  | ok fs =>
    -- the verdict is on the table that was just made empty
    rcases judge_run artifact table (logged.withFiles fs) with ⟨hverdict, hquiet⟩
    refine ⟨[], ?_, rfl, hverdict.trans (tableVerdict_of_emptied hwrite)⟩
    exact hquiet.calls.trans hcalls

/-- Without a name there is no scratch file, and nothing is extracted. -/
theorem extract_nameless (tools : Tools σ) (workspace : Path) {artifact : Path}
    (hname : artifact.fileName? = none) :
    (Sbat.extract tools workspace artifact).run =
      pure (.error (.invalidArtifactPath artifact)) := by
  rw [Sbat.extract, fileName, hname]
  rfl

theorem extract_named (tools : Tools σ) (workspace : Path) {artifact : Path} {name : Name}
    (hname : artifact.fileName? = some name) :
    (Sbat.extract tools workspace artifact).run =
      tools.run (.dumpSection artifact Sbat.sectionName (Sbat.fileIn workspace)
        (Sbat.scratchIn workspace name)) >>= fun reply =>
          (Sbat.settle artifact (Sbat.fileIn workspace) reply).run := by
  rw [Sbat.extract, fileName, hname]
  rfl

theorem makes_classify (tools : Tools σ) (workspace artifact : Path) :
    Makes (Sbat.isCrdyboot tools workspace artifact) (ClassifyCalls workspace artifact) := by
  cases hname : artifact.fileName? with
  | none =>
    rw [Sbat.isCrdyboot, extract_nameless tools workspace hname, pure_bind]
    refine Makes.after_quiet (Quiet.log _ _ _) fun _ => Makes.pure .nameless
  | some name =>
    rw [Sbat.isCrdyboot, extract_named tools workspace hname, bind_assoc]
    refine (Makes.run tools _).bind fun calls reply hcalls => ?_
    subst hcalls
    -- Only the tool's success leaves a table that can say yes.
    cases hreply : reply.succeeded with
    | false =>
      refine (conclude_failed artifact _ hreply).mono ?_
      rintro calls verdict ⟨rfl, rfl⟩
      exact .dumped hname nofun
    | true =>
      rw [Sbat.settle, hreply]
      refine (Makes.of_quiet fun w => (judge_run artifact (Sbat.fileIn workspace) w).2).mono ?_
      rintro calls verdict rfl
      exact .dumped hname fun _ => hreply

end BootSigning
