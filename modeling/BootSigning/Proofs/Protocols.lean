import BootSigning.Proofs.Release

/-!
# Protocols — what an operation does next, by what came of its calls

Signing and injecting are short sequences of calls.  How far one gets, and what its result is, is
settled by which of its calls succeeded.

* `Succeeds`, `FailsWith`: what calls say about a command;
* `SignProtocol`, `InjectProtocol`: the calls of the two operations with their results;
* `sign_protocol`: signing keeps to its protocol;
* `Command.elevated`, `StopsAtUpdate`: a run that ends where an update failed, and what it does to
  the artifact before it ends.

`injection_all_or_nothing` says that injecting keeps to its protocol, and that a run ends with the
first update that fails, so that the artifact stays as it was when it was classified.
-/

namespace BootSigning

variable {σ α : Type}

/-! ## What calls say about a command -/

/-- The command was called, and its program was started and ended well. -/
def Succeeds (calls : List Call) (command : Command) : Prop :=
  ∃ output, ⟨command, .finished output⟩ ∈ calls ∧ output.status.raw = 0

/-- The command was called and failed; the text is what its program left, or why none started. -/
def FailsWith (calls : List Call) (command : Command) (text : String) : Prop :=
  (∃ output, ⟨command, .finished output⟩ ∈ calls ∧ output.status.raw ≠ 0 ∧
    text = output.failureMessage) ∨
  ∃ e, ⟨command, .notStarted e⟩ ∈ calls ∧ text = e.message

/-- The calls are those of the first commands, one call for each. -/
structure InOrder (commands : List Command) (calls : List Call) : Prop where
  order : calls.map Call.command <+: commands
  once : (calls.map Call.command).Nodup

section

variable {calls : List Call} {command first : Command} {reply : Reply} {text : String}

theorem succeeds_iff :
    Succeeds calls command ↔ ∃ reply, ⟨command, reply⟩ ∈ calls ∧ reply.succeeded = true := by
  constructor
  · rintro ⟨output, hmem, hraw⟩
    exact ⟨_, hmem, Reply.succeeded_iff.2 ⟨output, rfl, hraw⟩⟩
  · rintro ⟨reply, hmem, hsucceeded⟩
    rcases Reply.succeeded_iff.1 hsucceeded with ⟨output, rfl, hraw⟩
    exact ⟨output, hmem, hraw⟩

theorem failsWith_iff :
    FailsWith calls command text ↔ ∃ reply, ⟨command, reply⟩ ∈ calls ∧
      reply.check = .error text := by
  constructor
  · rintro (⟨output, hmem, hfailed⟩ | ⟨e, hmem, htext⟩)
    · exact ⟨_, hmem, Reply.check_eq_error_iff.2 (.inl ⟨output, rfl, hfailed⟩)⟩
    · exact ⟨_, hmem, Reply.check_eq_error_iff.2 (.inr ⟨e, rfl, htext⟩)⟩
  · rintro ⟨reply, hmem, hcheck⟩
    rcases Reply.check_eq_error_iff.1 hcheck with ⟨output, rfl, hfailed⟩ | ⟨e, rfl, htext⟩
    · exact .inl ⟨output, hmem, hfailed⟩
    · exact .inr ⟨e, hmem, htext⟩

@[simp] theorem succeeds_nil : ¬Succeeds [] command := by simp [succeeds_iff]

@[simp] theorem succeeds_cons :
    Succeeds (⟨first, reply⟩ :: calls) command ↔
      (command = first ∧ reply.succeeded = true) ∨ Succeeds calls command := by
  simp [succeeds_iff, or_and_right, exists_or, and_assoc]

@[simp] theorem failsWith_nil : ¬FailsWith [] command text := by simp [failsWith_iff]

@[simp] theorem failsWith_cons :
    FailsWith (⟨first, reply⟩ :: calls) command text ↔
      (command = first ∧ reply.check = .error text) ∨ FailsWith calls command text := by
  simp [failsWith_iff, or_and_right, exists_or, and_assoc]

theorem InOrder.of_nodup {commands : List Command} (hcommands : commands.Nodup)
    (h : calls.map Call.command <+: commands) : InOrder commands calls :=
  ⟨h, h.sublist.nodup hcommands⟩

end

/-! ## Signing -/

/-- The calls of signing the target by way of a signed copy, with the result. -/
structure SignProtocol (s : Signer σ) (target copy : Path) (calls : List Call)
    (result : Except SignError Outcome) : Prop where
  inOrder : InOrder [.stripSignature target,
    .sign s.credentials.signingKey s.credentials.signingCert copy target,
    .privilegedCopy copy target true, .verify s.credentials.verificationCert target] calls
  /-- The old signature is removed and a new one is tried, however the removal went. -/
  begun : .stripSignature target ∈ calls.map Call.command ∧
    s.signing target copy ∈ calls.map Call.command
  installs : .privilegedCopy copy target true ∈ calls.map Call.command ↔
    Succeeds calls (s.signing target copy)
  checks : s.checking target ∈ calls.map Call.command ↔
    Succeeds calls (.privilegedCopy copy target true)
  signed : result = .ok .signed ↔ Succeeds calls (s.signing target copy) ∧
    Succeeds calls (.privilegedCopy copy target true) ∧ Succeeds calls (s.checking target)
  skipped : result = .ok .skipped ↔ ¬Succeeds calls (s.signing target copy)
  notInstalled : ∀ text, result = .error (.installFailed target text) ↔
    FailsWith calls (.privilegedCopy copy target true) text
  notVerified : ∀ text, result = .error (.verificationFailed target text) ↔
    FailsWith calls (s.checking target) text
  noOther : ∀ e, result = .error e →
    ∃ text, e = .installFailed target text ∨ e = .verificationFailed target text

section

variable {s : Signer σ} {target : Path} {name : Name} {calls : List Call}
  {result : Except SignError Outcome}

theorem SignCalls.protocol (h : SignCalls s target calls result)
    (hname : target.fileName? = some name) :
    SignProtocol s target (s.copyOf name) calls result := by
  have hcommands : [Command.stripSignature target, s.signing target (s.copyOf name),
      .privilegedCopy (s.copyOf name) target true, s.checking target].Nodup := by
    simp [Signer.signing, Signer.checking]
  -- in each case the calls are known, and so is which of them succeeded
  cases h with
  | nameless hnone => simp [hname] at hnone
  | skipped hother hmade =>
    cases hname.symm.trans hother
    refine ⟨.of_nodup hcommands ⟨_, rfl⟩, ?_, ?_, ?_, ?_, ?_, ?_, ?_, ?_⟩ <;>
      simp [hmade, Signer.signing, Signer.checking]
  | installed hother hmade hinstall =>
    cases hname.symm.trans hother
    cases hinstall with
    | notInstalled hcopy =>
      have hfailed := Reply.not_succeeded_of_check hcopy
      refine ⟨.of_nodup hcommands ⟨_, rfl⟩, ?_, ?_, ?_, ?_, ?_, ?_, ?_, ?_⟩ <;>
        simp [hmade, hcopy, hfailed, Signer.signing, Signer.checking]
    | notVerified hcopy hcheck =>
      have hcopied := Reply.check_of_succeeded hcopy
      have hfailed := Reply.not_succeeded_of_check hcheck
      refine ⟨.of_nodup hcommands ⟨_, rfl⟩, ?_, ?_, ?_, ?_, ?_, ?_, ?_, ?_⟩ <;>
        simp [hmade, hcopy, hcopied, hcheck, hfailed, Signer.signing, Signer.checking]
    | signed hcopy hcheck =>
      have hcopied := Reply.check_of_succeeded hcopy
      have hchecked := Reply.check_of_succeeded hcheck
      refine ⟨.of_nodup hcommands ⟨_, rfl⟩, ?_, ?_, ?_, ?_, ?_, ?_, ?_, ?_⟩ <;>
        simp [hmade, hcopy, hcopied, hcheck, hchecked, Signer.signing, Signer.checking]

theorem SignCalls.refused (h : SignCalls s target calls result)
    (hname : target.fileName? = none) :
    calls = [] ∧ result = .error (.invalidArtifactPath target) := by
  cases h with
  | nameless => exact ⟨rfl, rfl⟩
  | skipped hother | installed hother => simp [hname] at hother

end

/-- What an action adds to the history are the calls on its trail. -/
theorem Makes.trail {x : Action σ α} {P : List Call → α → Prop} {tools : Tools σ} {ws : Path}
    (h : Makes x P) (hworks : Works tools ws x) (w : World σ) :
    ∃ callings, Trail tools ws w callings (x.run w).2 ∧
      (x.run w).2.calls = w.calls ++ callings.map Calling.call ∧
      P (callings.map Calling.call) (x.run w).1 := by
  rcases h w with ⟨calls, hcalls, hP⟩
  rcases hworks w with ⟨callings, htrail⟩
  have hsame : calls = callings.map Calling.call :=
    List.append_cancel_left (hcalls.symm.trans htrail.calls)
  exact ⟨callings, htrail, htrail.calls, hsame ▸ hP⟩

/--
Without a file name nothing is called and that is the error; else the calls and the result are those
of the protocol, with the answers that the tools gave.
-/
theorem sign_protocol (s : Signer σ) (target : Path) (w : World σ) :
    let outcome := (s.sign target).run.run w
    ∃ callings, Trail s.tools s.workspace.path w callings outcome.2 ∧
      outcome.2.calls = w.calls ++ callings.map Calling.call ∧
      match target.fileName? with
      | none => callings = [] ∧ outcome.1 = .error (.invalidArtifactPath target)
      | some name => SignProtocol s target (s.workspace.path / (⟨name⟩ : Path))
          (callings.map Calling.call) outcome.1 := by
  intro outcome
  rcases (makes_sign s target).trail (works_sign s target) w with
    ⟨callings, htrail, hcalls, hsign⟩
  refine ⟨callings, htrail, hcalls, ?_⟩
  cases hname : target.fileName? with
  | some name => exact hsign.protocol hname
  | none =>
    rcases hsign.refused hname with ⟨hnone, hresult⟩
    exact ⟨List.map_eq_nil_iff.1 hnone, hresult⟩

/-! ## Injecting -/

/-- The command that writes the copy of an artifact with the new key. -/
def Injection.updating (keyDir artifact copy : Path) : Command :=
  .updateSection artifact Injection.sectionName (keyDir / ("../kernel_subkey.vbpubk" : Path)) copy

/-- The calls of putting the key into the artifact by way of a copy, with the result. -/
structure InjectProtocol (keyDir artifact copy : Path) (calls : List Call)
    (result : Except SignError Unit) : Prop where
  inOrder : InOrder [Injection.updating keyDir artifact copy, .privilegedCopy copy artifact false]
    calls
  updates : Injection.updating keyDir artifact copy ∈ calls.map Call.command
  copies : .privilegedCopy copy artifact false ∈ calls.map Call.command ↔
    Succeeds calls (Injection.updating keyDir artifact copy)
  injected : result = .ok () ↔ Succeeds calls (Injection.updating keyDir artifact copy) ∧
    Succeeds calls (.privilegedCopy copy artifact false)
  notUpdated : ∀ text, result = .error (.injectionFailed artifact .updateSection text) ↔
    FailsWith calls (Injection.updating keyDir artifact copy) text
  notCopied : ∀ text, result = .error (.injectionFailed artifact .copy text) ↔
    FailsWith calls (.privilegedCopy copy artifact false) text
  noOther : ∀ e, result = .error e → ∃ step text, e = .injectionFailed artifact step text

section

variable {keyDir ws artifact : Path} {name : Name} {calls : List Call}
  {result : Except SignError Unit}

theorem InjectCalls.protocol (h : InjectCalls keyDir ws artifact calls result)
    (hname : artifact.fileName? = some name) :
    InjectProtocol keyDir artifact (Injection.copyIn ws name) calls result := by
  have hcommands : [Injection.updating keyDir artifact (Injection.copyIn ws name),
      .privilegedCopy (Injection.copyIn ws name) artifact false].Nodup := by
    simp [Injection.updating]
  cases h with
  | nameless hnone => simp [hname] at hnone
  | notUpdated hother hupdate =>
    cases hname.symm.trans hother
    have hfailed := Reply.not_succeeded_of_check hupdate
    refine ⟨.of_nodup hcommands ⟨_, rfl⟩, ?_, ?_, ?_, ?_, ?_, ?_⟩ <;>
      simp [hupdate, hfailed, Injection.updating, Injection.payload]
  | @updated other updated copied _ hother hupdate hresult =>
    cases hname.symm.trans hother
    have hupdated := Reply.check_of_succeeded hupdate
    cases hcopy : copied.check with
    | error text =>
      have hfailed := Reply.not_succeeded_of_check hcopy
      rw [hcopy, mapError_error] at hresult
      refine ⟨.of_nodup hcommands ⟨_, rfl⟩, ?_, ?_, ?_, ?_, ?_, ?_⟩ <;>
        simp [hupdate, hupdated, hcopy, hfailed, hresult, Injection.updating, Injection.payload]
    | ok =>
      have hcopied := Reply.succeeded_of_check hcopy
      rw [hcopy, mapError_ok] at hresult
      refine ⟨.of_nodup hcommands ⟨_, rfl⟩, ?_, ?_, ?_, ?_, ?_, ?_⟩ <;>
        simp [hupdate, hupdated, hcopy, hcopied, hresult, Injection.updating, Injection.payload]

theorem InjectCalls.refused (h : InjectCalls keyDir ws artifact calls result)
    (hname : artifact.fileName? = none) :
    calls = [] ∧ result = .error (.invalidArtifactPath artifact) := by
  cases h with
  | nameless => exact ⟨rfl, rfl⟩
  | notUpdated hother | updated hother => simp [hname] at hother

end

/-! ## Runs in which an update fails -/

/-- The command runs with the rights to write to a boot directory. -/
def Command.elevated : Command → Bool
  | .stripSignature _ | .privilegedCopy .. => true
  | .dumpSection .. | .updateSection .. | .sign .. | .verify .. => false

theorem Command.elevated_iff (command : Command) :
    command.elevated = true ↔ (command.invocation {}).program = "sudo" := by
  cases command <;> simp [Command.elevated, Command.invocation]

/-- The call is an update of the artifact, and it failed. -/
structure Call.NotUpdated (p : Path) (call : Call) : Prop where
  updates : ∃ sectionName data output, call.command = .updateSection p sectionName data output
  failed : call.reply.succeeded = false

/-- How a run ends by a failed update of an artifact, from the classification of it on. -/
structure StopsAt (p : Path) (update classification : Call) (later : List Call)
    (result : Except SignError Summary) : Prop where
  classifies : ∃ sectionName dest scratch,
    classification.command = .dumpSection p sectionName dest scratch
  /-- There is only the update, and so no command that could change the artifact. -/
  last : later = [update]
  harmless : ∀ call ∈ later, call.command.elevated = false
  error : ∃ text, update.reply.check = .error text ∧
    result = .error (.injectionFailed p .updateSection text)

/-- Whichever update of an artifact fails, the calls and the result are those of an end by it. -/
def StopsAtUpdate (calls : List Call) (result : Except SignError Summary) : Prop :=
  ∀ p update, update ∈ calls → update.NotUpdated p → ∃ earlier classification later,
    calls = earlier ++ classification :: later ∧ StopsAt p update classification later result

section

variable {session : Session σ} {p : Path} {update : Call} {calls : List Call}

theorem sign_no_update {s : Signer σ} {target : Path} {result : Except SignError Outcome}
    (h : SignCalls s target calls result) (hmem : update ∈ calls) : ¬update.NotUpdated p := by
  rintro ⟨⟨sectionName, data, output, hcommand⟩, -⟩
  have hcommands : update.command ∈ calls.map Call.command := List.mem_map_of_mem hmem
  rw [hcommand] at hcommands
  cases h with
  | nameless => cases hmem
  | skipped => simp [Signer.signing] at hcommands
  | installed _ _ hinstall => cases hinstall <;> simp [Signer.signing, Signer.checking] at hcommands

theorem classify_no_update {ws artifact : Path} {verdict : Bool}
    (h : ClassifyCalls ws artifact calls verdict) (hmem : update ∈ calls) :
    ¬update.NotUpdated p := by
  rintro ⟨⟨sectionName, data, output, hcommand⟩, -⟩
  cases h with
  | nameless => cases hmem
  | dumped =>
    rw [List.mem_singleton.1 hmem] at hcommand
    cases hcommand

/-- An update that fails is the only call of its injection, and the injection ends with its text. -/
theorem inject_notUpdated {keyDir ws artifact : Path} {result : Except SignError Unit}
    (h : InjectCalls keyDir ws artifact calls result) (hmem : update ∈ calls)
    (hupdate : update.NotUpdated p) :
    calls = [update] ∧ ∃ text, update.reply.check = .error text ∧ artifact = p ∧
      result = .error (.injectionFailed p .updateSection text) := by
  rcases hupdate with ⟨⟨sectionName, data, output, hcommand⟩, hfailed⟩
  cases h with
  | nameless => cases hmem
  | notUpdated _ hcheck =>
    cases List.mem_singleton.1 hmem
    cases hcommand
    exact ⟨rfl, _, hcheck, rfl, rfl⟩
  | updated _ hsucceeded =>
    rcases List.mem_cons.1 hmem with rfl | hmem
    · simp [hsucceeded] at hfailed
    · rw [List.mem_singleton.1 hmem] at hcommand
      cases hcommand

/-- What follows calls without failed updates settles how the run ends. -/
theorem StopsAtUpdate.append {calls more : List Call} {result : Except SignError Summary}
    (h : StopsAtUpdate more result) (hcalls : ∀ p, ∀ call ∈ calls, ¬call.NotUpdated p) :
    StopsAtUpdate (calls ++ more) result := by
  intro p update hmem hupdate
  rcases List.mem_append.1 hmem with hmem | hmem
  · exact absurd hupdate (hcalls p update hmem)
  · rcases h p update hmem hupdate with ⟨earlier, classification, later, rfl, hstops⟩
    exact ⟨calls ++ earlier, classification, later, (List.append_assoc _ _ _).symm, hstops⟩

theorem stopsAtUpdate_of_none {calls : List Call} {result : Except SignError Summary}
    (hcalls : ∀ p, ∀ call ∈ calls, ¬call.NotUpdated p) : StopsAtUpdate calls result :=
  fun p update hmem hupdate => absurd hupdate (hcalls p update hmem)

/-- The calls of deeds end where an update fails. -/
theorem recorded_stopsAtUpdate {turns : List Turn} {s : Summary} {deeds : List Deed}
    {result : Except SignError Summary} (htaken : Taken turns s deeds result)
    (hrecorded : Recorded session deeds calls) : StopsAtUpdate calls result := by
  induction htaken generalizing calls with
  | done =>
    cases hrecorded
    exact stopsAtUpdate_of_none fun _ => nofun
  | signed _ ih =>
    rcases hrecorded with _ | ⟨hsign, hrest⟩
    exact (ih hrest).append fun p call hmem => sign_no_update hsign hmem
  | notSigned =>
    rcases hrecorded with _ | ⟨hsign, _ | _⟩
    rw [List.append_nil]
    exact stopsAtUpdate_of_none fun p call hmem => sign_no_update hsign hmem
  | other _ ih =>
    rcases hrecorded with _ | ⟨hclassify, hrest⟩
    exact (ih hrest).append fun p call hmem => classify_no_update hclassify hmem
  | notInjected a e turns s =>
    rcases hrecorded with _ | ⟨hclassify, _ | ⟨hinject, _ | _⟩⟩
    rw [List.append_nil]
    intro p update hmem hupdate
    rcases List.mem_append.1 hmem with hmem | hmem
    · exact absurd hupdate (classify_no_update hclassify hmem)
    · rcases inject_notUpdated hinject hmem hupdate with ⟨rfl, text, hcheck, rfl, herror⟩
      rcases hupdate.updates with ⟨sectionName, data, output, hcommand⟩
      have hharmless : ∀ call ∈ [update], call.command.elevated = false := by
        simp [hcommand, Command.elevated]
      cases hclassify with
      | dumped =>
        exact ⟨[], _, _, rfl, ⟨_, _, _, rfl⟩, rfl, hharmless, text, hcheck,
          congrArg Except.error (Except.error.inj herror)⟩
  | treated _ ih =>
    rcases hrecorded with _ | ⟨hclassify, _ | ⟨hinject, hrest⟩⟩
    refine StopsAtUpdate.append ((ih hrest).append fun p call hmem hupdate => ?_)
      fun p call hmem => classify_no_update hclassify hmem
    -- an injection that succeeded has no failed update
    rcases inject_notUpdated hinject hmem hupdate with ⟨-, text, -, -, herror⟩
    cases herror

end

theorem StopsAtUpdate.mono {calls : List Call} {taken result : Except SignError Summary}
    (h : StopsAtUpdate calls taken) (hresult : ∀ e, taken = .error e → result = .error e) :
    StopsAtUpdate calls result := by
  intro p update hmem hupdate
  rcases h p update hmem hupdate with ⟨earlier, classification, later, hcalls, hstops⟩
  rcases hstops.error with ⟨text, hcheck, herror⟩
  exact ⟨earlier, classification, later, hcalls, hstops.classifies, hstops.last, hstops.harmless,
    text, hcheck, hresult _ herror⟩

theorem run_stopsAtUpdate {session : Session σ} {layout : BootLayout} {plan : SigningPlan}
    {w w' : World σ} {result : Except SignError Summary}
    (hrun : (Orchestration.run layout plan session.ops).run.run w = (result, w')) :
    ∃ calls, w'.calls = w.calls ++ calls ∧ StopsAtUpdate calls result := by
  rcases run_recorded hrun with ⟨steps, calls, ⟨taken, htaken, hresult⟩, hrecorded, hcalls⟩
  refine ⟨calls, hcalls, (recorded_stopsAtUpdate htaken hrecorded).mono ?_⟩
  rintro e rfl
  exact hresult

theorem signTargetDir_stopsAtUpdate (around : Surroundings) (tools : Tools σ)
    (request : SignRequest) (w : World σ) :
    let outcome := (signTargetDir around tools request).run.run w
    ∃ calls, outcome.2.calls = w.calls ++ calls ∧ StopsAtUpdate calls outcome.1 := by
  intro outcome
  rcases signTargetDir_cases around tools request w with
    ⟨plan, session, w₀, hplan, hstart⟩ | ⟨e, hrefused⟩
  · rcases hrun : (Orchestration.run ⟨request.targetDir⟩ plan session.ops).run.run w₀ with ⟨r, w₁⟩
    rcases run_stopsAtUpdate hrun with ⟨calls, hcalls, hstops⟩
    rcases signTargetDir_started around tools request hplan hstart hrun with ⟨hcalled, hended⟩
    have hstarted := (start_run around tools request.keyDir w).1
    rw [hstart] at hstarted
    refine ⟨calls, ?_, hstops.mono ?_⟩
    · rw [hcalled, hcalls, hstarted]
    · -- what ends the work ends the run
      rintro e rfl
      exact hended
  · refine ⟨[], ?_, stopsAtUpdate_of_none fun _ => nofun⟩
    rw [List.append_nil]
    exact congrArg (fun r => r.2.calls) hrefused

/--
Without a file name nothing is called and that is the error; else the calls and the result are those
of the protocol, with the answers that the tools gave.  So the artifact is only written to when the
update succeeded, and a run ends with an update that failed: since the artifact was classified, no
command that could have changed it was called.
-/
theorem injection_all_or_nothing (tools : Tools σ) (keyDir ws artifact : Path) (w : World σ) :
    let outcome := (Injection.inject tools keyDir ws artifact).run.run w
    (∃ callings, Trail tools ws w callings outcome.2 ∧
      outcome.2.calls = w.calls ++ callings.map Calling.call ∧
      match artifact.fileName? with
      | none => callings = [] ∧ outcome.1 = .error (.invalidArtifactPath artifact)
      | some name => InjectProtocol keyDir artifact
          (ws / (⟨name ++ Utf8.encode ".injected"⟩ : Path)) (callings.map Calling.call)
          outcome.1) ∧
    (∀ (session : Session σ) (layout : BootLayout) (plan : SigningPlan),
      let outcome := (Orchestration.run layout plan session.ops).run.run w
      ∃ calls, outcome.2.calls = w.calls ++ calls ∧ StopsAtUpdate calls outcome.1) ∧
    ∀ (around : Surroundings) (request : SignRequest),
      let outcome := (signTargetDir around tools request).run.run w
      ∃ calls, outcome.2.calls = w.calls ++ calls ∧ StopsAtUpdate calls outcome.1 := by
  refine ⟨?_, fun session layout plan => run_stopsAtUpdate (Prod.eta _).symm,
    fun around request => signTargetDir_stopsAtUpdate around tools request w⟩
  have hworks := works_inject tools ws keyDir artifact
  rcases (makes_inject tools keyDir ws artifact).trail hworks w with
    ⟨callings, htrail, hcalls, hinject⟩
  refine ⟨callings, htrail, hcalls, ?_⟩
  cases hname : artifact.fileName? with
  | some name => exact hinject.protocol hname
  | none =>
    rcases hinject.refused hname with ⟨hnone, hresult⟩
    exact ⟨List.map_eq_nil_iff.1 hnone, hresult⟩

/-- Signs and classifies as before, but is killed when it is to update a section. -/
def SmallBoot.killedUpdating : Executor Nat where
  announce _ := []
  answer call signed fs :=
    if call.arguments.head? = some "--update-section" then
      (.finished ⟨.signaled 9 false, [], []⟩, signed, fs)
    else (SmallBoot.executor 2).answer call signed fs

theorem injection_all_or_nothing_killed :
    let artifact : Path := "/boot/efi/boot/bootx64.efi"
    let outcome := (signTargetDir SmallBoot.surroundings ⟨{}, SmallBoot.killedUpdating⟩
      SmallBoot.request).run.run ⟨SmallBoot.files, 0, []⟩
    let update : Call := ⟨Injection.updating "/keys" artifact
      "/tmp/sign-uefi-0/bootx64.efi.injected", .finished ⟨.signaled 9 false, [], []⟩⟩
    update ∈ outcome.2.calls ∧ update.NotUpdated artifact ∧
      ∃ earlier classification later, outcome.2.calls = earlier ++ classification :: later ∧
        StopsAt artifact update classification later outcome.1 := by
  intro artifact outcome update
  have hmem : update ∈ outcome.2.calls := by decide +kernel
  have hupdate : update.NotUpdated artifact := ⟨⟨_, _, _, rfl⟩, by decide +kernel⟩
  rcases (injection_all_or_nothing ⟨{}, SmallBoot.killedUpdating⟩ "/keys" "/tmp" artifact
    ⟨SmallBoot.files, 0, []⟩).2.2 SmallBoot.surroundings SmallBoot.request with
    ⟨calls, hcalls, hstops⟩
  -- there were no calls before the run
  have hcalls : outcome.2.calls = calls := hcalls
  rw [hcalls] at hmem ⊢
  exact ⟨hmem, hupdate, hstops artifact update hmem hupdate⟩

end BootSigning
