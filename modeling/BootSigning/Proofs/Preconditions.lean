import BootSigning.Program
import BootSigning.Proofs.Runs

/-!
# Preconditions — runs that are refused

Before it calls anything, a run looks for its tools, reads its pattern, looks for its credentials
and makes its workspace, in this order.

* `Precondition`, `Precondition.fault?`: one of these conditions, and the error if it does not hold;
* `Precondition.ofSigning`, `Precondition.ofProgram`: those of a run, in order.

`signTargetDir_refused` and `sign_refused` say that the first condition that does not hold is the
error of the run, and that such a run leaves everything as it was.
-/

namespace BootSigning

variable {σ : Type}

/-! ## Conditions -/

/-- Something that must hold before a run calls its tools. -/
inductive Precondition where
  /-- A program can be called by the name. -/
  | tool (name : String)
  /-- The pattern of bootloaders can be read. -/
  | pattern
  /-- The credential is a file. -/
  | credential (kind : CredentialKind)
  /-- A fresh directory can be made, and its path is text. -/
  | workspace
  deriving DecidableEq, Repr

namespace Precondition

/-- The conditions of signing a boot directory, in the order in which they are looked at. -/
def ofSigning : List Precondition :=
  [.pattern, .credential .verificationCert, .credential .signingCert, .credential .signingKey,
    .workspace]

/-- The conditions of a whole run of the program. -/
def ofProgram : List Precondition :=
  [.tool "objcopy", .tool "sbattach", .tool "sbsign", .tool "sbverify"] ++ ofSigning

/-- The error if a workspace cannot be made. -/
def workspaceFault? (around : Surroundings) (fs : FileSystem) : Option SignError :=
  match Workspace.makeFresh fs (Workspace.fromRoot fs around.temporary) around.proposals with
  | .error fault => some (.io fault)
  | .ok (_, path) => if path.isText then none else some (.pathNotText path)

/-- The error if the condition does not hold. -/
def fault? (environment : Environment) (around : Surroundings) (request : SignRequest)
    (fs : FileSystem) : Precondition → Option SignError
  | .tool name =>
    if environment.isAvailable fs (Path.ofString name) then none else some (.toolNotFound name)
  | .pattern =>
    match Glob.compile request.bootloaders.toList with
    | .error flaw => some (.invalidGlob request.bootloaders flaw.message)
    | .ok _ => none
  | .credential kind =>
    if fs.isFile (kind.path request.keyDir) then none
    else some (.missingCredential kind (kind.path request.keyDir))
  | .workspace => workspaceFault? around fs

end Precondition

/-! ## Checks one after another -/

section

variable {α β : Type}

/-- The error of a result, if it is one. -/
def faultOf? : Except SignError α → Option SignError
  | .error e => some e
  | .ok _ => none

/-- From `w` an attempt succeeds, unless there is a fault; then it fails and leaves `w` as it is. -/
def Guarded (fault : Option SignError) (x : Attempt σ α) (w : World σ) : Prop :=
  match fault with
  | some e => x.run.run w = (.error e, w)
  | none => ∃ a w', x.run.run w = (.ok a, w')

namespace Guarded

variable {fault : Option SignError} {w : World σ}

theorem fails (e : SignError) : Guarded (some e) (throw e : Attempt σ α) w := rfl

theorem reading {f : FileSystem → Attempt σ α} (h : Guarded fault (f w.files) w) :
    Guarded fault (files >>= f) w := by
  unfold Guarded
  rw [run_files]
  exact h

/-- A check that does not fail leaves the outcome to what follows. -/
theorem check {r : Except SignError α} {f : α → Attempt σ β}
    (h : ∀ a, r = .ok a → Guarded fault (f a) w) :
    Guarded ((faultOf? r).or fault) (orFail r >>= f) w := by
  cases r with
  | error e => exact fails e
  | ok a => exact h a rfl

/-- What only adds to a success changes nothing about the faults. -/
theorem map {x : Attempt σ α} (h : Guarded fault x w) (f : α → β) :
    Guarded fault (x >>= fun a => pure (f a)) w := by
  cases fault with
  | some e =>
    have hfails : x.run.run w = (.error e, w) := h
    show (x >>= fun a => pure (f a)).run.run w = (.error e, w)
    rw [run_bind, hfails]
  | none =>
    rcases h with ⟨a, w', hok⟩
    refine ⟨f a, w', ?_⟩
    rw [run_bind, hok]
    rfl

end Guarded

/-- The error for the first item that fails a test. -/
theorem findSome?_of_test (test : α → Bool) (say : α → SignError) (items : List α) :
    items.findSome? (fun a => if test a then none else some (say a)) =
      (items.find? fun a => !test a).map say := by
  have hone : ∀ a, (if test a then none else some (say a)) =
      (Option.guard (fun a => !test a) a).map say := by
    intro a
    cases htest : test a <;> simp [Option.guard, htest]
  simp only [hone]
  rw [List.find?_eq_findSome?_guard, List.map_findSome?]
  rfl

end

/-! ## The conditions of a run -/

section

variable (environment : Environment) (around : Surroundings) (request : SignRequest)
  (fs : FileSystem)

theorem faultOf?_requireTools :
    faultOf? (requireTools {} fun name => environment.isAvailable fs (Path.ofString name)) =
      ((ToolNames.required {}).map Precondition.tool).findSome?
        (Precondition.fault? environment around request fs) := by
  rw [List.findSome?_map]
  refine Eq.trans ?_ (findSome?_of_test _ _ _).symm
  rw [requireTools]
  cases (ToolNames.required {}).find? fun name =>
    !environment.isAvailable fs (Path.ofString name) <;> rfl

theorem faultOf?_resolve :
    faultOf? (Credentials.resolve fs request.keyDir) =
      (CredentialKind.all.map Precondition.credential).findSome?
        (Precondition.fault? environment around request fs) := by
  rw [List.findSome?_map]
  refine Eq.trans ?_ (findSome?_of_test _ _ _).symm
  simp only [Credentials.resolve, Credentials.get_below]
  cases CredentialKind.all.find? fun kind => !fs.isFile (kind.path request.keyDir) <;> rfl

theorem faultOf?_glob (pattern : String) :
    faultOf? (ArtifactGlob.ofPattern pattern) =
      match Glob.compile pattern.toList with
      | .error flaw => some (.invalidGlob pattern flaw.message)
      | .ok _ => none := by
  unfold ArtifactGlob.ofPattern
  split
  · rename_i tokens hok
    simp only [hok, faultOf?]
  · rename_i flaw herror
    simp only [herror, faultOf?]

/-- A plan is made if the pattern of bootloaders can be read; the other pattern can. -/
theorem faultOf?_plan :
    faultOf? (SigningPlan.ofPattern request.bootloaders) =
      Precondition.fault? environment around request fs .pattern := by
  have hkernels : faultOf? (ArtifactGlob.ofPattern SigningPlan.syslinuxPattern) = none := by
    rw [faultOf?_glob]
    decide
  refine Eq.trans ?_ (faultOf?_glob request.bootloaders)
  rw [SigningPlan.ofPattern]
  cases ArtifactGlob.ofPattern request.bootloaders with
  | error e => rfl
  | ok loaders =>
    cases hglob : ArtifactGlob.ofPattern SigningPlan.syslinuxPattern with
    | error e =>
      rw [hglob] at hkernels
      cases hkernels
    | ok kernels => rfl

end

/-! ## Opening a session -/

/-- The part of a run that comes before its first call. -/
def opening (around : Surroundings) (tools : Tools σ) (request : SignRequest) :
    Attempt σ (SigningPlan × Session σ) := do
  let plan ← orFail (SigningPlan.ofPattern request.bootloaders)
  let session ← Session.start around tools request.keyDir
  return (plan, session)

/-- The part of a run that comes after. -/
def afterOpening (request : SignRequest) (opened : SigningPlan × Session σ) :
    Attempt σ Summary := do
  match ← resultOf (Orchestration.run ⟨request.targetDir⟩ opened.1 opened.2.ops) with
  | .ok summary =>
    opened.2.finish
    return summary
  | .error e =>
    opened.2.discard
    throw e

theorem signTargetDir_eq (around : Surroundings) (tools : Tools σ) (request : SignRequest) :
    signTargetDir around tools request = opening around tools request >>= afterOpening request := by
  simp only [signTargetDir, opening, bind_assoc, pure_bind]
  rfl

section

variable (environment : Environment) (around : Surroundings) (tools : Tools σ)
  (request : SignRequest) (w : World σ)

theorem guarded_create :
    Guarded (Precondition.workspaceFault? around w.files) (Workspace.create around) w := by
  rw [Precondition.workspaceFault?, Workspace.create, Workspace.createIn]
  apply Guarded.reading
  cases hfresh : Workspace.makeFresh w.files (Workspace.fromRoot w.files around.temporary)
      around.proposals with
  | error fault => exact Guarded.fails (.io fault)
  | ok made =>
    rcases made with ⟨fs, path⟩
    cases htext : path.isText with
    | true =>
      simp only [htext, if_true]
      exact ⟨⟨path⟩, _, rfl⟩
    | false =>
      -- a directory whose path is not text is given up, which leaves nothing behind
      simp only [htext, Bool.false_eq_true, if_false]
      dsimp only [Guarded]
      rw [run_setFiles, run_lifted, Workspace.discard_fresh hfresh]
      rfl

/-- A session opens if its credentials are there and a workspace can be made. -/
theorem guarded_start :
    Guarded ((CredentialKind.all.map Precondition.credential ++ [Precondition.workspace]).findSome?
      (Precondition.fault? environment around request w.files))
      (Session.start around tools request.keyDir) w := by
  have hworkspace : [Precondition.workspace].findSome?
      (Precondition.fault? environment around request w.files) =
        Precondition.workspaceFault? around w.files := by
    rw [List.findSome?_singleton]
    rfl
  rw [List.findSome?_append, hworkspace, ← faultOf?_resolve]
  rw [Session.start]
  apply Guarded.reading
  exact Guarded.check fun credentials _ => (guarded_create around w).map _

/-- The conditions of signing are all that a session needs to open. -/
theorem guarded_opening :
    Guarded (Precondition.ofSigning.findSome?
      (Precondition.fault? environment around request w.files))
      (opening around tools request) w := by
  have hsplit : Precondition.ofSigning.findSome?
      (Precondition.fault? environment around request w.files) =
        (faultOf? (SigningPlan.ofPattern request.bootloaders)).or
          ((CredentialKind.all.map Precondition.credential ++ [Precondition.workspace]).findSome?
            (Precondition.fault? environment around request w.files)) := by
    rw [faultOf?_plan environment around request w.files, Precondition.ofSigning,
      List.findSome?_cons]
    cases Precondition.fault? environment around request w.files .pattern <;> rfl
  rw [hsplit]
  exact Guarded.check fun plan _ => (guarded_start environment around tools request w).map _

end

/-! ## Refused runs -/

section

variable (environment : Environment) (around : Surroundings) (request : SignRequest)

theorem signTargetDir_refused (tools : Tools σ) {w : World σ} {e : SignError}
    (h : Precondition.ofSigning.findSome?
      (Precondition.fault? environment around request w.files) = some e) :
    (signTargetDir around tools request).run.run w = (.error e, w) := by
  have hguarded := guarded_opening environment around tools request w
  rw [h] at hguarded
  have hopening : (opening around tools request).run.run w = (.error e, w) := hguarded
  rw [signTargetDir_eq, run_bind, hopening]

theorem sign_refused (executor : Executor σ) {w : World σ} {e : SignError}
    (h : Precondition.ofProgram.findSome?
      (Precondition.fault? environment around request w.files) = some e) :
    (Program.sign environment around ⟨{}, executor⟩ request).run.run w = (.error e, w) := by
  have hsplit : Precondition.ofProgram.findSome?
      (Precondition.fault? environment around request w.files) =
        (faultOf? (requireTools {} fun name =>
          environment.isAvailable w.files (Path.ofString name))).or
          (Precondition.ofSigning.findSome?
            (Precondition.fault? environment around request w.files)) := by
    rw [faultOf?_requireTools environment around request w.files]
    exact List.findSome?_append
  rw [hsplit] at h
  rw [Program.sign, run_files]
  cases htools : requireTools {} fun name =>
      environment.isAvailable w.files (Path.ofString name) with
  | error fault =>
    rw [htools] at h
    cases h
    rfl
  | ok found =>
    rw [htools] at h
    exact signTargetDir_refused environment around request ⟨{}, executor⟩ h

end

/--
The first condition that does not hold is the error of the run; nothing is called and nothing is
changed.  A run of the program looks for its tools first, then does the same, and says why it ends.
-/
theorem refused_by_first_fault (environment : Environment) (around : Surroundings)
    (executor : Executor σ) :
    (∀ (tools : Tools σ) (request : SignRequest) (w : World σ) (e : SignError),
      Precondition.ofSigning.findSome?
          (Precondition.fault? environment around request w.files) = some e →
        (signTargetDir around tools request).run.run w = (.error e, w)) ∧
    ∀ (items : List (List UInt8)) (arguments : Arguments) (fs : FileSystem) (memory : σ)
      (e : SignError), CommandLine.parse items = .ok arguments →
      Precondition.ofProgram.findSome?
          (Precondition.fault? environment around arguments.request fs) = some e →
        (Program.sign environment around ⟨{}, executor⟩ arguments.request).run.run
            ⟨fs, memory, []⟩ = (.error e, ⟨fs, memory, []⟩) ∧
          Program.execute environment around executor memory items fs =
            ⟨1, "", String.join ((Program.filterFor environment arguments).2.map Program.warning) ++
              e.message ++ "\n", fs, []⟩ := by
  refine ⟨fun tools request w e h => signTargetDir_refused environment around request tools h, ?_⟩
  intro items arguments fs memory e hparse h
  have hrefused := sign_refused environment around arguments.request executor
    (w := ⟨fs, memory, []⟩) h
  refine ⟨hrefused, ?_⟩
  rw [Program.execute, hparse]
  simp only [hrefused, Program.conclude]
  simp

namespace SmallBoot

/-- The small boot directory on a host that has the tools. -/
def equipped : FileSystem :=
  Entry.applyAll files
    (["/bin/objcopy", "/bin/sbattach", "/bin/sbsign", "/bin/sbverify"].map fun tool =>
      ⟨Path.ofString tool, .file [], some 0o755⟩)

def environment : Environment := ⟨Utf8.encode "/sbin:/bin", "/root", none⟩

/-- There is no directory for workspaces. -/
def nowhere : Surroundings := ⟨"/missing", [Utf8.encode "0"]⟩

/-- A key directory without credentials. -/
def keyless : Arguments := ⟨"/boot", "/boot", "*.efi", 0, false⟩

end SmallBoot

/-- The tools are there, but no credential is, and no directory for the workspace either. -/
theorem refused_by_first_fault_small :
    let items := ["/boot", "/boot", "*.efi"].map Utf8.encode
    let e : SignError := .missingCredential .verificationCert "/boot/db/db.pem"
    let w : World Nat := ⟨SmallBoot.equipped, 0, []⟩
    let fault? := Precondition.fault? SmallBoot.environment SmallBoot.nowhere
      SmallBoot.keyless.request
    (Precondition.ofSigning.findSome? (fault? w.files) = some e ∧
      (signTargetDir SmallBoot.nowhere ⟨{}, SmallBoot.executor 2⟩
        SmallBoot.keyless.request).run.run w = (.error e, w)) ∧
    CommandLine.parse items = .ok SmallBoot.keyless ∧
      Precondition.ofProgram.findSome? (fault? SmallBoot.equipped) = some e ∧
      Program.execute SmallBoot.environment SmallBoot.nowhere (SmallBoot.executor 2) 0 items
          SmallBoot.equipped =
        ⟨1, "", "No verification cert: /boot/db/db.pem\n", SmallBoot.equipped, []⟩ := by
  intro items e w fault?
  have hparse : CommandLine.parse items = .ok SmallBoot.keyless := rfl
  have hsigning : Precondition.ofSigning.findSome? (fault? w.files) = some e := by decide +kernel
  have hfirst : Precondition.ofProgram.findSome? (fault? SmallBoot.equipped) = some e := by
    decide +kernel
  rcases refused_by_first_fault SmallBoot.environment SmallBoot.nowhere (SmallBoot.executor 2) with
    ⟨hsign, hexecute⟩
  have hsigned := hsign ⟨{}, SmallBoot.executor 2⟩ SmallBoot.keyless.request w e hsigning
  have hrefused := hexecute items SmallBoot.keyless SmallBoot.equipped 0 e hparse hfirst
  have hmessage : e.message = "No verification cert: /boot/db/db.pem" := by decide +kernel
  refine ⟨⟨hsigning, hsigned⟩, hparse, hfirst, hrefused.2.trans ?_⟩
  rw [hmessage]
  rfl

end BootSigning
