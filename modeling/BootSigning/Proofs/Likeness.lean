import BootSigning.Proofs.Operations

/-!
# Likeness — what a run sees of its calls

Two runs of one request are compared call by call, each with tools of its own.

* `SignError.withoutText`: an error but for the words of a call that failed;
* `Likeness`: worlds of the two runs that are alike as long as the calls are answered alike;
* `Likeness.Agree`, `Likeness.Match`: actions and attempts of the two runs that keep worlds alike,
  the attempts with the same result but for such words.

`Likeness.signTargetDir_match` says that whole runs do.  So of each answer a run uses no more than
whether the call succeeded, and its words to pass them on; of the removal of a signature not even
that.
-/

namespace BootSigning

variable {σ τ α α' β β' : Type}

/-! ## What may differ -/

/-- The command removes a signature. -/
def Command.isStrip : Command → Bool
  | .stripSignature _ => true
  | _ => false

/-- The error without the words of the call that failed. -/
def SignError.withoutText : SignError → SignError
  | .verificationFailed artifact _ => .verificationFailed artifact ""
  | .installFailed artifact _ => .installFailed artifact ""
  | .injectionFailed artifact step _ => .injectionFailed artifact step ""
  | e => e

/-- The same value, or the same error but for words; `exact` asks for the same words. -/
inductive SameResult (exact : Prop) : Except SignError α → Except SignError α → Prop where
  | ok (a : α) : SameResult exact (.ok a) (.ok a)
  | error {e e' : SignError} (hsame : e.withoutText = e'.withoutText) (hexact : exact → e = e') :
      SameResult exact (.error e) (.error e')

/-- Both answers say that the call failed, or neither. -/
structure Reply.Like (exact : Prop) (reply reply' : Reply) : Prop where
  succeeded : reply.succeeded = reply'.succeeded
  exact : exact → reply = reply'

/-- Answers that are alike are checked alike. -/
theorem Reply.Like.check {exact : Prop} {reply reply' : Reply} (h : Reply.Like exact reply reply') :
    (reply.check = .ok () ∧ reply'.check = .ok ()) ∨
      ∃ text text', reply.check = .error text ∧ reply'.check = .error text' ∧
        (exact → text = text') := by
  have hsucceeded := h.succeeded
  cases hreply : reply.succeeded with
  | true =>
    rw [hreply] at hsucceeded
    exact .inl ⟨check_of_succeeded hreply, check_of_succeeded hsucceeded.symm⟩
  | false =>
    rw [hreply] at hsucceeded
    rcases check_of_not_succeeded hreply with ⟨text, htext⟩
    rcases check_of_not_succeeded hsucceeded.symm with ⟨text', htext'⟩
    refine .inr ⟨text, text', htext, htext', fun hexact => ?_⟩
    rw [h.exact hexact, htext'] at htext
    exact (Except.error.inj htext).symm

/-! ## Worlds that are alike -/

/-- The world after a record was logged. -/
def World.logged (w : World σ) (record : LogRecord) : World σ :=
  { w with events := w.events ++ [.log record] }

/-- Worlds of two runs that are alike as long as their tools answer alike. -/
structure Likeness (tools : Tools σ) (tools' : Tools τ) where
  /-- The worlds are alike. -/
  Holds : World σ → World τ → Prop
  /-- Answers and log records are the same in every detail. -/
  exact : Prop
  files : ∀ {w w'}, Holds w w' → w'.files = w.files
  logged : ∀ {w w'} record, Holds w w' → Holds (w.logged record) (w'.logged record)
  /-- Where details may differ, so may all that is logged. -/
  quiet : ∀ {w w₁ w' w₁'}, ¬exact → Holds w w' → Quiet w w₁ → Quiet w' w₁' → Holds w₁ w₁'
  edited : ∀ {w w'} fs, Holds w w' → Holds (w.withFiles fs) (w'.withFiles fs)
  called : ∀ {w w'} command, Holds w w' →
    Holds ((tools.run command).run w).2 ((tools'.run command).run w').2
  replied : ∀ {w w'} command, Holds w w' → command.isStrip = false →
    Reply.Like exact ((tools.run command).run w).1 ((tools'.run command).run w').1
  /-- The words of any answer are the same if every detail has to be. -/
  repliedExactly : ∀ {w w'} command, Holds w w' → exact →
    ((tools.run command).run w).1 = ((tools'.run command).run w').1

namespace Likeness

variable {tools : Tools σ} {tools' : Tools τ} (L : Likeness tools tools')

/-- From worlds that are alike, the actions lead to such worlds, with results that are related. -/
def Agree (R : α → α' → Prop) (x : Action σ α) (y : Action τ α') : Prop :=
  ∀ w w', L.Holds w w' → L.Holds (x.run w).2 (y.run w').2 ∧ R (x.run w).1 (y.run w').1

/-- The attempts agree, with the same result but for words. -/
def Match (x : Attempt σ α) (y : Attempt τ α) : Prop := L.Agree (SameResult L.exact) x.run y.run

variable {L}

/-! ### Actions -/

namespace Agree

variable {R : α → α' → Prop} {Q : β → β' → Prop}

theorem pure {a : α} {a' : α'} (h : R a a') : L.Agree R (Pure.pure a) (Pure.pure a') :=
  fun _ _ hw => ⟨hw, h⟩

theorem bind {x : Action σ α} {y : Action τ α'} {f : α → Action σ β} {g : α' → Action τ β'}
    (h : L.Agree R x y) (hf : ∀ a a', R a a' → L.Agree Q (f a) (g a')) :
    L.Agree Q (x >>= f) (y >>= g) := by
  intro w w' hw
  rcases h w w' hw with ⟨hnext, hR⟩
  exact hf _ _ hR _ _ hnext

theorem log (level : Level) (component : Component) {message message' : String}
    (h : L.exact → message = message') :
    L.Agree Eq (BootSigning.log level component message)
      (BootSigning.log level component message') := by
  intro w w' hw
  refine ⟨?_, rfl⟩
  by_cases hexact : L.exact
  · rw [h hexact]
    exact L.logged ⟨level, component, message'⟩ hw
  · exact L.quiet hexact hw (Quiet.log level component message w)
      (Quiet.log level component message' w')

/-- What follows a word in the log. -/
theorem after_log {level : Level} {component : Component} {message message' : String}
    {f : Unit → Action σ β} {g : Unit → Action τ β'} (h : L.exact → message = message')
    (hf : L.Agree Q (f ()) (g ())) :
    L.Agree Q (BootSigning.log level component message >>= f)
      (BootSigning.log level component message' >>= g) :=
  (log level component h).bind fun _ _ _ => hf

theorem files {f : FileSystem → Action σ β} {g : FileSystem → Action τ β'}
    (hf : ∀ fs, L.Agree Q (f fs) (g fs)) :
    L.Agree Q (BootSigning.files >>= f) (BootSigning.files >>= g) := by
  intro w w' hw
  rw [run_files_action, run_files_action, L.files hw]
  exact hf w.files w w' hw

theorem setFiles (fs : FileSystem) : L.Agree Eq (setFiles fs) (setFiles fs) :=
  fun _ _ hw => ⟨L.edited fs hw, rfl⟩

theorem forM {f : α → Action σ Unit} {g : α → Action τ Unit} (h : ∀ a, L.Agree Eq (f a) (g a))
    (items : List α) : L.Agree Eq (items.forM f) (items.forM g) := by
  induction items with
  | nil => exact pure rfl
  | cons item rest ih => exact (h item).bind fun _ _ _ => ih

end Agree

/-! ### Attempts -/

namespace Match

theorem pure (a : α) : L.Match (Pure.pure a) (Pure.pure a) := Agree.pure (.ok a)

theorem throw {e e' : SignError} (hsame : e.withoutText = e'.withoutText)
    (hexact : L.exact → e = e') :
    L.Match (MonadExcept.throw e : Attempt σ α) (MonadExcept.throw e') :=
  Agree.pure (.error hsame hexact)

/-- An error that is not about a call. -/
theorem throw_same (e : SignError) :
    L.Match (MonadExcept.throw e : Attempt σ α) (MonadExcept.throw e) :=
  throw rfl fun _ => rfl

theorem bind {x : Attempt σ α} {y : Attempt τ α} {f : α → Attempt σ β} {g : α → Attempt τ β}
    (h : L.Match x y) (hf : ∀ a, L.Match (f a) (g a)) : L.Match (x >>= f) (y >>= g) := by
  rw [Match, ExceptT.run_bind, ExceptT.run_bind]
  refine Agree.bind h fun r r' hr => ?_
  cases hr with
  | ok a => exact hf a
  | error hsame hexact => exact Agree.pure (.error hsame hexact)

theorem lifted {R : α → α' → Prop} {x : Action σ α} {y : Action τ α'} {f : α → Attempt σ β}
    {g : α' → Attempt τ β} (h : L.Agree R x y) (hf : ∀ a a', R a a' → L.Match (f a) (g a')) :
    L.Match ((x : Attempt σ α) >>= f) ((y : Attempt τ α') >>= g) :=
  Agree.bind h hf

/-- An action with the same result in both runs. -/
theorem after {x : Action σ α} {y : Action τ α} {f : α → Attempt σ β} {g : α → Attempt τ β}
    (h : L.Agree Eq x y) (hf : ∀ a, L.Match (f a) (g a)) :
    L.Match ((x : Attempt σ α) >>= f) ((y : Attempt τ α) >>= g) :=
  lifted h fun a _ haa => haa ▸ hf a

theorem after_log {level : Level} {component : Component} {message message' : String}
    {f : Unit → Attempt σ β} {g : Unit → Attempt τ β} (h : L.exact → message = message')
    (hf : L.Match (f ()) (g ())) :
    L.Match ((BootSigning.log level component message : Attempt σ Unit) >>= f)
      ((BootSigning.log level component message' : Attempt τ Unit) >>= g) :=
  after (Agree.log level component h) fun _ => hf

theorem files {f : FileSystem → Attempt σ β} {g : FileSystem → Attempt τ β}
    (hf : ∀ fs, L.Match (f fs) (g fs)) :
    L.Match (BootSigning.files >>= f) (BootSigning.files >>= g) :=
  Agree.files hf

theorem setFiles (fs : FileSystem) : L.Match (setFiles fs) (setFiles fs) := by
  intro w w' hw
  exact ⟨L.edited fs hw, .ok ()⟩

theorem forM {f : α → Attempt σ Unit} {g : α → Attempt τ Unit} (h : ∀ a, L.Match (f a) (g a))
    (items : List α) : L.Match (items.forM f) (items.forM g) := by
  induction items with
  | nil => exact pure ()
  | cons item rest ih => exact (h item).bind fun _ => ih

theorem orFail (r : Except SignError α) : L.Match (orFail r) (orFail r) := by
  cases r with
  | ok a => exact pure a
  | error e => exact throw_same e

theorem fileName (p : Path) :
    L.Match (fileName p : Attempt σ Name) (fileName p : Attempt τ Name) := by
  cases hname : BootSigning.fileName p with
  | ok name => exact pure name
  | error e => exact throw_same e

/-- A call, of whose answer the rest uses no more than whether it succeeded, and its words. -/
theorem checked {command : Command} (hstrip : command.isStrip = false)
    {f : Reply → Attempt σ β} {g : Reply → Attempt τ β}
    (hf : ∀ reply reply', Reply.Like L.exact reply reply' → L.Match (f reply) (g reply')) :
    L.Match ((tools.run command : Attempt σ Reply) >>= f)
      ((tools'.run command : Attempt τ Reply) >>= g) := by
  refine lifted (R := Reply.Like L.exact) (fun w w' hw => ?_) hf
  exact ⟨L.called command hw, L.replied command hw hstrip⟩

/-- What only logs, in its own way in each run. -/
theorem after_quiet {x : Action σ Unit} {y : Action τ Unit} {f : Unit → Attempt σ β}
    {g : Unit → Attempt τ β} (hx : ∀ w, Quiet w (x.run w).2) (hy : ∀ w, Quiet w (y.run w).2)
    (hexact : L.exact → L.Agree Eq x y) (hf : L.Match (f ()) (g ())) :
    L.Match ((x : Attempt σ Unit) >>= f) ((y : Attempt τ Unit) >>= g) := by
  refine after (fun w w' hw => ?_) fun _ => hf
  by_cases h : L.exact
  · exact hexact h w w' hw
  · exact ⟨L.quiet h hw (hx w) (hy w'), rfl⟩

/-- What an attempt came to, handed on as it is. -/
theorem resulted {x : Attempt σ α} {y : Attempt τ α} {f : Except SignError α → Attempt σ β}
    {g : Except SignError α → Attempt τ β} (h : L.Match x y)
    (hf : ∀ r r', SameResult L.exact r r' → L.Match (f r) (g r')) :
    L.Match (resultOf x >>= f) (resultOf y >>= g) :=
  lifted h hf

end Match

end Likeness

/-! ## The operations of a session -/

open Likeness

variable {tools : Tools σ} {tools' : Tools τ} {L : Likeness tools tools'}

section

variable (credentials : Credentials) (ws : Workspace)

theorem Signer.install_match (copy target : Path) :
    L.Match (Signer.install ⟨tools, credentials, ws⟩ copy target)
      (Signer.install ⟨tools', credentials, ws⟩ copy target) := by
  refine Match.checked rfl fun copied copied' hcopied => ?_
  rcases hcopied.check with ⟨hcopy, hcopy'⟩ | ⟨text, text', hcopy, hcopy', htext⟩
  · rw [hcopy, hcopy']
    refine Match.checked rfl fun checked checked' hchecked => ?_
    rcases hchecked.check with ⟨hcheck, hcheck'⟩ | ⟨text, text', hcheck, hcheck', htext⟩
    · rw [hcheck, hcheck']
      exact Match.pure _
    · rw [hcheck, hcheck']
      exact Match.throw rfl fun hexact => by rw [htext hexact]
  · rw [hcopy, hcopy']
    exact Match.throw rfl fun hexact => by rw [htext hexact]

theorem Signer.produce_match (copy target : Path) :
    L.Match (Signer.produce ⟨tools, credentials, ws⟩ copy target)
      (Signer.produce ⟨tools', credentials, ws⟩ copy target) := by
  refine Match.checked rfl fun made made' hmade => ?_
  rcases hmade.check with ⟨hmake, hmake'⟩ | ⟨text, text', hmake, hmake', htext⟩
  · rw [hmake, hmake']
    exact install_match credentials ws copy target
  · rw [hmake, hmake']
    refine Match.after_log (fun _ => rfl) (Match.after_log (fun hexact => ?_) (Match.pure _))
    rw [htext hexact]

/-- What is logged of the removal of a signature. -/
def Signer.remark (target : Path) (stripped : Reply) : Action σ Unit :=
  match stripped.check with
  | .error message => log .debug .signer s!"no signature removed from {target}: {message}"
  | .ok () => pure ()

theorem Signer.quiet_remark (target : Path) (stripped : Reply) (w : World σ) :
    Quiet w ((remark target stripped : Action σ Unit).run w).2 := by
  rw [remark]
  cases stripped.check with
  | error message => exact Quiet.log _ _ _ w
  | ok => exact Quiet.refl w

theorem Signer.sign_named (s : Signer σ) {target : Path} {name : Name}
    (hname : target.fileName? = some name) :
    s.sign target = (do
      log .info .signer s!"signing efi file {target}"
      let stripped ← (s.tools.run (.stripSignature target) : Attempt σ Reply)
      (remark target stripped : Action σ Unit)
      s.produce (s.copyOf name) target) := by
  have hnamed : ∀ f : Name → Attempt σ Outcome,
      ((fileName target : Attempt σ Name) >>= f) = f name := by
    intro f
    rw [fileName, hname]
    rfl
  rw [sign]
  simp only [hnamed]
  refine congrArg _ (funext fun _ => congrArg _ (funext fun stripped => ?_))
  rw [remark]
  cases stripped.check <;> rfl

theorem Signer.sign_match (target : Path) :
    L.Match (Signer.sign ⟨tools, credentials, ws⟩ target)
      (Signer.sign ⟨tools', credentials, ws⟩ target) := by
  cases hname : target.fileName? with
  | none =>
    rw [sign, sign, fileName, hname]
    exact Match.after_log (fun _ => rfl) (Match.throw_same _)
  | some name =>
    rw [sign_named _ hname, sign_named _ hname]
    refine Match.after_log (fun _ => rfl) ?_
    -- whatever came of the removal of the signature, the file is signed next
    refine Match.lifted (R := fun stripped stripped' => L.exact → stripped = stripped') ?_ ?_
    · intro w w' hw
      exact ⟨L.called _ hw, L.repliedExactly _ hw⟩
    · intro stripped stripped' hstripped
      refine Match.after_quiet (quiet_remark target stripped) (quiet_remark target stripped') ?_
        (produce_match credentials ws _ target)
      intro hexact
      rw [hstripped hexact, remark, remark]
      cases stripped'.check with
      | error message => exact Agree.log _ _ fun _ => rfl
      | ok => exact Agree.pure rfl

end

section

variable (keyDir workspace artifact : Path)

theorem Injection.mustRun_match {command : Command} (hstrip : command.isStrip = false)
    {failure : String → SignError}
    (hfailure : ∀ text text', (failure text).withoutText = (failure text').withoutText) :
    L.Match (Injection.mustRun tools command failure)
      (Injection.mustRun tools' command failure) := by
  refine Match.checked hstrip fun reply reply' hreply => ?_
  rcases hreply.check with ⟨hcheck, hcheck'⟩ | ⟨text, text', hcheck, hcheck', htext⟩
  · rw [hcheck, hcheck']
    exact Match.pure _
  · rw [hcheck, hcheck']
    exact Match.throw (hfailure text text') fun hexact => by rw [htext hexact]

theorem Injection.inject_match :
    L.Match (Injection.inject tools keyDir workspace artifact)
      (Injection.inject tools' keyDir workspace artifact) := by
  refine Match.bind ?_ fun name => Match.after_log (fun _ => rfl) ?_
  · exact Match.fileName artifact
  · refine Match.bind (mustRun_match rfl fun _ _ => rfl) fun _ => ?_
    exact mustRun_match rfl fun _ _ => rfl

theorem change_match (edit : FileSystem → Except Fault FileSystem) :
    L.Match (change edit) (change edit) := by
  refine Match.files fun fs => ?_
  cases edit fs with
  | ok fs' => exact Match.setFiles fs'
  | error fault => exact Match.throw_same _

theorem Sbat.settle_match (table : Path) {reply reply' : Reply}
    (hreply : Reply.Like L.exact reply reply') :
    L.Match (Sbat.settle artifact table reply) (Sbat.settle artifact table reply') := by
  rw [settle, settle, hreply.succeeded]
  cases reply'.succeeded with
  | true => exact Match.pure _
  | false =>
    exact Match.after_log (fun _ => rfl) (Match.bind (change_match _) fun _ => Match.pure _)

theorem Sbat.extract_match :
    L.Match (Sbat.extract tools workspace artifact) (Sbat.extract tools' workspace artifact) := by
  refine Match.bind (Match.fileName artifact) fun name => ?_
  exact Match.checked rfl fun reply reply' hreply => settle_match artifact _ hreply

theorem Sbat.judge_agree (table : Path) :
    L.Agree Eq (Sbat.judge artifact table) (Sbat.judge artifact table) := by
  refine Agree.files fun fs => ?_
  cases fs.readText table with
  | error fault => exact Agree.after_log (fun _ => rfl) (Agree.pure rfl)
  | ok text => exact Agree.after_log (fun _ => rfl) (Agree.pure rfl)

theorem Sbat.isCrdyboot_agree :
    L.Agree Eq (Sbat.isCrdyboot tools workspace artifact)
      (Sbat.isCrdyboot tools' workspace artifact) := by
  refine Agree.bind (extract_match workspace artifact) fun r r' hr => ?_
  cases hr with
  | ok table => exact judge_agree artifact table
  | error hsame hexact =>
    exact Agree.after_log (fun h => by rw [hexact h]) (Agree.pure rfl)

end

/-! ## Working through a boot directory -/

/-- The operations of two runs that match. -/
structure Likeness.OpsMatch (L : Likeness tools tools') (ops : ArtifactOps σ)
    (ops' : ArtifactOps τ) : Prop where
  classify : ∀ p, L.Agree Eq (ops.classify p) (ops'.classify p)
  inject : ∀ p, L.Match (ops.inject p) (ops'.inject p)
  sign : ∀ p, L.Match (ops.sign p) (ops'.sign p)

/-- Sessions that differ in their tools alone. -/
theorem Session.ops_match (credentials : Credentials) (ws : Workspace) (keyDir : Path) :
    L.OpsMatch (Session.ops ⟨⟨tools, credentials, ws⟩, keyDir⟩)
      (Session.ops ⟨⟨tools', credentials, ws⟩, keyDir⟩) where
  classify p := Sbat.isCrdyboot_agree ws.path p
  inject p := Injection.inject_match keyDir ws.path p
  sign p := Signer.sign_match credentials ws p

section

variable {ops : ArtifactOps σ} {ops' : ArtifactOps τ} (h : L.OpsMatch ops ops')

open Orchestration

include h

theorem signOne_match (s : Summary) (a : Artifact) :
    L.Match (signOne ops s a) (signOne ops' s a) := by
  refine Match.after_log (fun _ => rfl) ?_
  exact Match.bind (h.sign a.path) fun outcome => Match.pure _

theorem signAll_match (s : Summary) (artifacts : List Artifact) :
    L.Match (signAll ops s artifacts) (signAll ops' s artifacts) := by
  induction artifacts generalizing s with
  | nil => exact Match.pure s
  | cons a rest ih => exact Match.bind (signOne_match h s a) ih

theorem treatCandidate_match (s : Summary) (a : Artifact) :
    L.Match (treatCandidate ops s a) (treatCandidate ops' s a) := by
  refine Match.after (h.classify a.path) fun verdict => ?_
  cases verdict with
  | false => exact Match.after_log (fun _ => rfl) (Match.pure s)
  | true => exact Match.bind (h.inject a.path) fun _ => signOne_match h _ a

theorem treatCandidates_match (s : Summary) (artifacts : List Artifact) :
    L.Match (treatCandidates ops s artifacts) (treatCandidates ops' s artifacts) := by
  induction artifacts generalizing s with
  | nil => exact Match.pure s
  | cons a rest ih => exact Match.bind (treatCandidate_match h s a) ih

omit h

theorem matchingFiles_match (glob : ArtifactGlob) (dir : Path) :
    L.Match (glob.matchingFiles dir) (glob.matchingFiles dir) := by
  refine Match.files fun fs => ?_
  cases glob.select fs dir with
  | error e => exact Match.throw_same e
  | ok selection =>
    refine Match.bind ?_ fun _ => Match.pure _
    refine Match.forM (fun p => ?_) _
    exact Agree.bind (Agree.log _ _ fun _ => rfl) fun _ _ _ => Agree.pure (.ok ())

theorem candidates_agree (layout : BootLayout) (names : List Path) :
    L.Agree Eq (layout.crdybootCandidates names) (layout.crdybootCandidates names) := by
  refine Agree.files fun fs => ?_
  refine Agree.bind (Agree.forM (fun path => ?_) _) fun _ _ _ => Agree.pure rfl
  exact Agree.log _ _ fun _ => rfl

theorem rootKernel_agree (layout : BootLayout) :
    L.Agree Eq layout.rootKernel? layout.rootKernel? := by
  refine Agree.files fun fs => ?_
  cases layout.resolveRootKernel fs with
  | error fault => exact Agree.after_log (fun _ => rfl) (Agree.pure rfl)
  | ok path => exact Agree.pure rfl

theorem bootloaders_match (layout : BootLayout) (glob : ArtifactGlob) :
    L.Match (layout.bootloaders glob) (layout.bootloaders glob) :=
  Match.bind (matchingFiles_match glob _) fun _ => Match.pure _

theorem syslinuxKernels_match (layout : BootLayout) (glob : ArtifactGlob) :
    L.Match (layout.syslinuxKernels glob) (layout.syslinuxKernels glob) :=
  Match.bind (matchingFiles_match glob _) fun _ => Match.pure _

include h

/-- Operations that match are called alike. -/
theorem run_match (layout : BootLayout) (plan : SigningPlan) :
    L.Match (run layout plan ops) (run layout plan ops') := by
  unfold run
  refine Match.bind (bootloaders_match layout _) fun bootloaders => ?_
  refine Match.bind (signAll_match h _ _) fun s₁ => ?_
  refine Match.after (candidates_agree layout _) fun candidates => ?_
  refine Match.bind (treatCandidates_match h _ _) fun s₂ => ?_
  refine Match.bind (syslinuxKernels_match layout _) fun kernels => ?_
  refine Match.bind (signAll_match h _ _) fun s₃ => ?_
  refine Match.after (rootKernel_agree layout) fun kernel => ?_
  refine Match.bind (signAll_match h _ _) fun s₄ => ?_
  exact Match.after_log (fun _ => rfl) (Match.pure s₄)

end

/-! ## Whole runs -/

theorem Workspace.discard_agree (ws : Workspace) : L.Agree Eq ws.discard ws.discard :=
  Agree.files fun _ => Agree.setFiles _

theorem Workspace.create_match (around : Surroundings) :
    L.Match (Workspace.create around) (Workspace.create around) := by
  refine Match.files fun fs => ?_
  cases makeFresh fs (fromRoot fs around.temporary) around.proposals with
  | error fault => exact Match.throw_same _
  | ok made =>
    rcases made with ⟨fs', path⟩
    refine Match.bind (Match.setFiles fs') fun _ => ?_
    dsimp only
    split
    · exact Match.after_log (fun _ => rfl) (Match.pure _)
    · exact Match.after (Workspace.discard_agree ⟨path⟩) fun _ => Match.throw_same _

theorem Workspace.close_match (ws : Workspace) : L.Match ws.close ws.close := by
  refine Match.after_log (fun _ => rfl) (Match.files fun fs => ?_)
  refine Match.bind (Match.setFiles _) fun _ => ?_
  cases (fs.removeDirectory ws.path).fault with
  | none => exact Match.pure ()
  | some fault => exact Match.throw_same _

/-- What follows the opening of a session has its credentials and its workspace to go on. -/
theorem Session.start_bind (around : Surroundings) (tools : Tools σ) (keyDir : Path)
    (f : Session σ → Attempt σ α) :
    (Session.start around tools keyDir >>= f) = (do
      let credentials ← orFail (Credentials.resolve (← files) keyDir)
      let workspace ← Workspace.create around
      f ⟨⟨tools, credentials, workspace⟩, keyDir⟩) := by
  simp only [Session.start, bind_assoc, pure_bind]

/-- Runs of one request keep worlds alike and come to the same result but for words. -/
theorem Likeness.signTargetDir_match (around : Surroundings) (request : SignRequest) :
    L.Match (signTargetDir around tools request) (signTargetDir around tools' request) := by
  unfold signTargetDir
  refine Match.bind (Match.orFail _) fun plan => ?_
  rw [Session.start_bind, Session.start_bind]
  refine Match.files fun fs => Match.bind (Match.orFail _) fun credentials => ?_
  refine Match.bind (Workspace.create_match around) fun ws => ?_
  refine Match.resulted (run_match (Session.ops_match credentials ws request.keyDir) _ plan) ?_
  intro r r' hr
  cases hr with
  | ok summary => exact Match.bind (Workspace.close_match ws) fun _ => Match.pure summary
  | error hsame hexact =>
    exact Match.after (Workspace.discard_agree ws) fun _ => Match.throw hsame hexact

end BootSigning
