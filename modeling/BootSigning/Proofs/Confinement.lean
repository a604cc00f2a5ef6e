import BootSigning.Proofs.Descent
import BootSigning.Proofs.Release
import Mathlib.Data.List.Forall2

/-!
# Confinement — where the commands of a run may write

Tools write files that they are told to make, and change artifacts.  The files are made in the
workspace under names of their own, whatever the artifacts are called, and no artifact is changed
but the one that the command is about.

* `IsChild`: the path of an entry right in a directory;
* `Command.Confined`: a command that makes its files there, and takes them from there;
* `ConfinedTo`: such commands, for some artifacts only.

`calls_confined` says that all calls are of that kind: those of a run for the artifacts that it
found, those of a session for the one that it was asked for.
-/

namespace BootSigning

variable {σ : Type}

/-! ## Entries of a directory -/

/-- A name that leads to an entry of its directory: some bytes, no slash, and not only dots. -/
structure SingleName (name : Name) : Prop where
  some : name ≠ []
  not_here : name ≠ [Path.dot]
  not_up : name ≠ [Path.dot, Path.dot]
  no_slash : Path.slash ∉ name

/-- The path of the entry with a name right in a directory: the directory is its parent. -/
structure IsChild (dir : Path) (name : Name) (p : Path) : Prop where
  joined : p = dir / (⟨name⟩ : Path)
  components : p.components = dir.components ++ [.named name]
  single : SingleName name

namespace SingleName

variable {name : Name}

theorem append (h : SingleName name) {suffix : Name} (hslash : Path.slash ∉ suffix)
    (hlong : 2 < suffix.length) : SingleName (name ++ suffix) := by
  have hlength : 2 < (name ++ suffix).length := by
    rw [List.length_append]
    omega
  refine ⟨?_, ?_, ?_, ?_⟩
  · rintro hnil
    simp [hnil] at hlength
  · rintro hdot
    simp [hdot] at hlength
  · rintro hdots
    simp [hdots] at hlength
  · rw [List.mem_append, not_or]
    exact ⟨h.no_slash, hslash⟩

theorem isChild (h : SingleName name) {dir : Path} (hdir : dir.bytes ≠ []) :
    IsChild dir name (dir / (⟨name⟩ : Path)) := by
  refine ⟨rfl, ?_, h⟩
  have hidle : FileSystem.isIdle name = false := by
    simp [FileSystem.isIdle, h.some, h.not_here]
  have hup : FileSystem.isUp name = false := by simp [FileSystem.isUp, h.not_up]
  rw [Path.components_join hdir h.no_slash, Path.steps_name h.no_slash, hidle]
  simp [FileSystem.componentOf, hup]

end SingleName

/-- The file name of a path leads to an entry, whatever else the path says. -/
theorem singleName_of_fileName? {p : Path} {name : Name} (h : p.fileName? = some name) :
    SingleName name := by
  have hmem : .named name ∈ p.components := by
    rw [Path.fileName?] at h
    split at h
    · rename_i found hfound
      cases h
      exact List.mem_of_getLast? hfound
    · cases h
  have hstep : ∃ step ∈ p.steps, FileSystem.componentOf step = .named name := by
    rw [Path.components_eq, List.mem_append, List.mem_map] at hmem
    rcases hmem with hfront | hstep
    · -- neither a root nor a dot in front is a name
      rw [Path.front] at hfront
      split at hfront
      · cases List.mem_singleton.1 hfront
      · split at hfront
        · cases List.mem_singleton.1 hfront
        · cases hfront
    · exact hstep
  rcases hstep with ⟨step, hstep, hcomponent⟩
  have hidle : FileSystem.isIdle step = false := by simpa using (List.mem_filter.1 hstep).2
  rw [FileSystem.componentOf] at hcomponent
  split at hcomponent
  · cases hcomponent
  · rename_i hup
    cases hcomponent
    simp only [FileSystem.isIdle, FileSystem.isUp, Bool.or_eq_false_iff, beq_eq_false_iff_ne,
      beq_iff_eq] at hidle hup
    exact ⟨hidle.1, hidle.2, hup, Path.slash_notMem_fileName h⟩

theorem IsChild.fileName? {dir p : Path} {name : Name} (h : IsChild dir name p) :
    p.fileName? = some name := by
  simp [Path.fileName?, h.components]

/-- A file with a longer name is another file, however the paths are spelled. -/
theorem IsChild.components_ne {dir p artifact : Path} {name suffix : Name}
    (h : IsChild dir (name ++ suffix) p) (hname : artifact.fileName? = some name)
    (hsuffix : suffix ≠ []) : p.components ≠ artifact.components := by
  intro hsame
  have hboth : some (name ++ suffix) = some name := by
    rw [← h.fileName?, ← hname, Path.fileName?, Path.fileName?, hsame]
  exact hsuffix (by simpa using hboth)

/-! ## Confined commands -/

namespace Command

/-- The artifact that a command reads, or changes in its place. -/
def artifact : Command → Path
  | .dumpSection artifact _ _ _ => artifact
  | .updateSection artifact _ _ _ => artifact
  | .stripSignature artifact => artifact
  | .sign _ _ _ artifact => artifact
  | .verify _ artifact => artifact
  | .privilegedCopy _ dest _ => dest

/--
The files that the command makes are right in the workspace, and what it copies over an artifact
comes from there.  They are called like the artifact, or like it with an ending, but for the table;
where an ending tells the two apart, the file is not the artifact.
-/
def Confined (ws : Path) : Command → Prop
  | .dumpSection artifact _ dest scratch =>
    IsChild ws tableName dest ∧ ∃ name, artifact.fileName? = some name ∧
      IsChild ws (name ++ Utf8.encode ".tmp") scratch ∧ scratch.components ≠ artifact.components
  | .updateSection artifact _ _ output =>
    ∃ name, artifact.fileName? = some name ∧
      IsChild ws (name ++ Utf8.encode ".injected") output ∧
      output.components ≠ artifact.components
  | .sign _ _ output artifact =>
    ∃ name, artifact.fileName? = some name ∧ IsChild ws name output
  | .privilegedCopy source dest _ =>
    ∃ name, dest.fileName? = some name ∧
      (IsChild ws name source ∨ IsChild ws (name ++ Utf8.encode ".injected") source)
  | .stripSignature _ | .verify _ _ => True

end Command

/-- All calls are of confined commands, each for one of the artifacts. -/
def ConfinedTo (ws : Path) (artifacts : List Path) (calls : List Call) : Prop :=
  ∀ call ∈ calls, call.command.Confined ws ∧ call.command.artifact ∈ artifacts

namespace ConfinedTo

variable {ws : Path} {artifacts others : List Path} {calls more : List Call}

theorem nil : ConfinedTo ws artifacts [] := nofun

theorem cons {command : Command} {reply : Reply} (hconfined : command.Confined ws)
    (hartifact : command.artifact ∈ artifacts) (h : ConfinedTo ws artifacts calls) :
    ConfinedTo ws artifacts (⟨command, reply⟩ :: calls) :=
  List.forall_mem_cons.2 ⟨⟨hconfined, hartifact⟩, h⟩

theorem append (h : ConfinedTo ws artifacts calls) (hmore : ConfinedTo ws artifacts more) :
    ConfinedTo ws artifacts (calls ++ more) :=
  List.forall_mem_append.2 ⟨h, hmore⟩

theorem mono (h : ConfinedTo ws artifacts calls) (hsubset : artifacts ⊆ others) :
    ConfinedTo ws others calls :=
  fun call hcall => ⟨(h call hcall).1, hsubset (h call hcall).2⟩

end ConfinedTo

/-! ## The operations of a session -/

section

variable {ws : Path} (hws : ws.bytes ≠ []) {artifact : Path} {calls : List Call}

include hws

theorem isChild_fileIn : IsChild ws tableName (Sbat.fileIn ws) := by
  have hsingle : SingleName tableName :=
    ⟨by decide +kernel, by decide +kernel, by decide +kernel, by decide +kernel⟩
  exact hsingle.isChild hws

theorem isChild_scratchIn {name : Name} (hname : SingleName name) :
    IsChild ws (name ++ Utf8.encode ".tmp") (Sbat.scratchIn ws name) :=
  (hname.append (by decide +kernel) (by decide +kernel)).isChild hws

theorem isChild_copyIn {name : Name} (hname : SingleName name) :
    IsChild ws (name ++ Utf8.encode ".injected") (Injection.copyIn ws name) :=
  (hname.append (by decide +kernel) (by decide +kernel)).isChild hws

theorem confined_of_classify {verdict : Bool} (h : ClassifyCalls ws artifact calls verdict) :
    ConfinedTo ws [artifact] calls := by
  cases h with
  | nameless => exact .nil
  | @dumped name reply _ hname _ =>
    have hscratch := isChild_scratchIn hws (singleName_of_fileName? hname)
    exact .cons ⟨isChild_fileIn hws, name, hname, hscratch,
      hscratch.components_ne hname (by decide +kernel)⟩ List.mem_cons_self .nil

theorem confined_of_inject {keyDir : Path} {r : Except SignError Unit}
    (h : InjectCalls keyDir ws artifact calls r) : ConfinedTo ws [artifact] calls := by
  have hupdate {name : Name} (hname : artifact.fileName? = some name) :
      (Command.updateSection artifact Injection.sectionName (Injection.payload keyDir)
        (Injection.copyIn ws name)).Confined ws := by
    have hcopy := isChild_copyIn hws (singleName_of_fileName? hname)
    exact ⟨name, hname, hcopy, hcopy.components_ne hname (by decide +kernel)⟩
  cases h with
  | nameless => exact .nil
  | notUpdated hname => exact .cons (hupdate hname) List.mem_cons_self .nil
  | @updated name _ _ _ hname =>
    have hcopy := isChild_copyIn hws (singleName_of_fileName? hname)
    exact .cons (hupdate hname) List.mem_cons_self
      (.cons ⟨name, hname, .inr hcopy⟩ List.mem_cons_self .nil)

end

section

variable {session : Session σ} {s : Signer σ} {target : Path} {calls : List Call}

theorem confined_of_install (hws : s.workspace.path.bytes ≠ []) {name : Name}
    (hname : target.fileName? = some name) {r : Except SignError Outcome}
    (h : InstallCalls s (s.copyOf name) target calls r) :
    ConfinedTo s.workspace.path [target] calls := by
  have hcopy : (Command.privilegedCopy (s.copyOf name) target true).Confined s.workspace.path :=
    ⟨name, hname, .inl ((singleName_of_fileName? hname).isChild hws)⟩
  have hcheck : (s.checking target).Confined s.workspace.path := trivial
  cases h with
  | notInstalled => exact .cons hcopy List.mem_cons_self .nil
  | notVerified | signed =>
    exact .cons hcopy List.mem_cons_self (.cons hcheck List.mem_cons_self .nil)

theorem confined_of_sign (hws : s.workspace.path.bytes ≠ []) {r : Except SignError Outcome}
    (h : SignCalls s target calls r) : ConfinedTo s.workspace.path [target] calls := by
  have hstrip : (Command.stripSignature target).Confined s.workspace.path := trivial
  have hsign {name : Name} (hname : target.fileName? = some name) :
      (s.signing target (s.copyOf name)).Confined s.workspace.path :=
    ⟨name, hname, (singleName_of_fileName? hname).isChild hws⟩
  cases h with
  | nameless => exact .nil
  | skipped hname =>
    exact .cons hstrip List.mem_cons_self (.cons (hsign hname) List.mem_cons_self .nil)
  | installed hname _ hinstall =>
    exact .cons hstrip List.mem_cons_self (.cons (hsign hname) List.mem_cons_self
      (confined_of_install hws hname hinstall))

/-- A deed is confined to its artifact. -/
theorem confined_of_deed (hws : session.signer.workspace.path.bytes ≠ []) {deed : Deed}
    (h : DeedCalls session deed calls) :
    ConfinedTo session.signer.workspace.path [deed.artifact] calls := by
  cases deed with
  | classified => exact confined_of_classify hws h
  | injected => exact confined_of_inject hws h
  | signed => exact confined_of_sign hws h

theorem Recorded.confined (hws : session.signer.workspace.path.bytes ≠ []) {deeds : List Deed}
    (h : Recorded session deeds calls) :
    ConfinedTo session.signer.workspace.path (deeds.map Deed.artifact) calls := by
  induction h with
  | nil => exact .nil
  | cons hdeed _ ih =>
    refine ((confined_of_deed hws hdeed).mono ?_).append (ih.mono (List.subset_cons_self _ _))
    exact List.cons_subset.2 ⟨List.mem_cons_self, List.nil_subset _⟩

end

/-! ## Whole runs and sessions -/

/-- The artifact that a session is asked about. -/
def Errand.artifact : Errand → Path
  | .classify artifact | .inject artifact | .sign artifact => artifact

theorem makes_carryOut {session : Session σ} (hws : session.signer.workspace.path.bytes ≠ [])
    (errand : Errand) :
    Makes (session.carryOut errand) fun calls _ =>
      ConfinedTo session.signer.workspace.path [errand.artifact] calls := by
  cases errand with
  | classify p =>
    refine (makes_classify _ _ p).bind fun calls verdict h => Makes.pure ?_
    rw [List.append_nil]
    exact confined_of_classify hws h
  | inject p =>
    refine (makes_inject _ _ _ p).bind fun calls r h => Makes.pure ?_
    rw [List.append_nil]
    exact confined_of_inject hws h
  | sign p =>
    refine (makes_sign _ p).bind fun calls r h => Makes.pure ?_
    rw [List.append_nil]
    exact confined_of_sign hws h

/-- Each errand adds calls of its own, which are confined to its artifact. -/
theorem makes_errands {session : Session σ} (hws : session.signer.workspace.path.bytes ≠ [])
    (errands : List Errand) :
    Makes (errands.forM session.carryOut) fun calls _ => ∃ parts : List (List Call),
      calls = parts.flatten ∧ List.Forall₂ (fun errand part =>
        ConfinedTo session.signer.workspace.path [errand.artifact] part) errands parts := by
  induction errands with
  | nil => exact Makes.pure ⟨[], rfl, .nil⟩
  | cons errand rest ih =>
    refine (makes_carryOut hws errand).bind fun calls _ hcalls => ih.mono ?_
    rintro _ _ ⟨parts, rfl, hparts⟩
    exact ⟨calls :: parts, rfl, .cons hcalls hparts⟩

/-- The workspace of a session has a name. -/
theorem Session.workspace_ne_nil {around : Surroundings} {tools : Tools σ} {keyDir : Path}
    {session : Session σ} {w w₁ : World σ}
    (h : (Session.start around tools keyDir).run.run w = (.ok session, w₁)) :
    session.signer.workspace.path.bytes ≠ [] := by
  rcases (start_run around tools keyDir w).2 session (by rw [h]) with ⟨fs, ws, hfresh, rfl⟩
  rcases Workspace.named_of_makeFresh hfresh with ⟨proposal, _, rfl⟩
  have hname : Workspace.namePrefix ++ proposal ≠ [] :=
    List.append_ne_nil_of_left_ne_nil (by decide +kernel) proposal
  show (Path.join _ _).bytes ≠ []
  rw [Path.join]
  split
  · exact hname
  split <;> simp [hname]

/--
The calls of a run are confined to the artifacts that it found, each group of them among the files
as they were when its turn came; without a session there are none.
-/
def RunConfined (around : Surroundings) (tools : Tools σ) (request : SignRequest) (w : World σ) :
    Prop :=
  let outcome := (signTargetDir around tools request).run.run w
  (∃ e, outcome = (.error e, w)) ∨
    ∃ plan session w₁ steps calls,
      SigningPlan.ofPattern request.bootloaders = .ok plan ∧
      (Session.start around tools request.keyDir).run.run w = (.ok session, w₁) ∧
      Course session.ops w₁ steps
        ((Orchestration.run ⟨request.targetDir⟩ plan session.ops).run.run w₁).2 ∧
      outcome.2.calls = w.calls ++ calls ∧
      ConfinedTo session.signer.workspace.path
        ((prescribe (groupsOf ⟨request.targetDir⟩ plan) w₁.files steps).turns.map
          fun turn => turn.artifact.path)
        calls

/-- The calls of a session are confined, errand by errand, to the artifact that was asked for. -/
def UseConfined (around : Surroundings) (tools : Tools σ) (keyDir : Path) (errands : List Errand)
    (finished : Bool) (w : World σ) : Prop :=
  let outcome := (Session.use around tools keyDir errands finished).run.run w
  (∃ e, outcome = (.error e, w)) ∨
    ∃ session w₁ parts,
      (Session.start around tools keyDir).run.run w = (.ok session, w₁) ∧
      outcome.2.calls = w.calls ++ parts.flatten ∧ List.Forall₂ (fun errand part =>
        ConfinedTo session.signer.workspace.path [errand.artifact] part) errands parts

section

variable (around : Surroundings) (tools : Tools σ) (w : World σ)

theorem signTargetDir_confined (request : SignRequest) : RunConfined around tools request w := by
  rcases signTargetDir_cases around tools request w with
    ⟨plan, session, w₁, hplan, hstart⟩ | hrefused
  · refine .inr ?_
    rcases hrun : (Orchestration.run ⟨request.targetDir⟩ plan session.ops).run.run w₁ with ⟨r, w₂⟩
    have hgoes := goes_run session.ops ⟨request.targetDir⟩ plan w₁
    rw [Goes, hrun] at hgoes
    rcases hgoes with ⟨steps, hcourse, taken, htaken, _⟩
    rcases calls_of_course hcourse with ⟨calls, hcalls, hrecorded⟩
    have hstarted := (start_run around tools request.keyDir w).1
    rw [hstart] at hstarted
    refine ⟨plan, session, w₁, steps, calls, hplan, hstart, ?_, ?_, ?_⟩
    · rwa [hrun]
    · rw [(signTargetDir_started around tools request hplan hstart hrun).1, hcalls, hstarted]
    · exact (hrecorded.confined (Session.workspace_ne_nil hstart)).mono htaken.artifacts_subset
  · exact .inl hrefused

theorem Session.use_confined (keyDir : Path) (errands : List Errand) (finished : Bool) :
    UseConfined around tools keyDir errands finished w := by
  rw [UseConfined, Session.use, run_bind]
  have hstarted := (start_run around tools keyDir w).1
  rcases Session.start_cases around tools keyDir w with ⟨e, hstart⟩ | ⟨_, _, w₁, _, _, hstart⟩
  · rw [hstart]
    exact .inl ⟨e, rfl⟩
  · refine .inr ?_
    have hws := Session.workspace_ne_nil hstart
    rw [hstart] at hstarted ⊢
    generalize (⟨_, keyDir⟩ : Session σ) = session at hws hstart ⊢
    rcases makes_errands hws errands w₁ with ⟨calls, hcalls, parts, rfl, hparts⟩
    let w₂ := ((errands.forM session.carryOut).run w₁).2
    -- neither way of ending a session calls anything
    have hended : ((if finished then session.finish else session.discard : Attempt σ Unit).run.run
        w₂).2.calls = w₂.calls := by
      cases finished with
      | true => exact (finish_run session w₂).1.calls
      | false => exact (discard_run session w₂).calls
    exact ⟨session, w₁, parts, rfl, hended.trans (hcalls.trans (by rw [hstarted])), hparts⟩

end

/--
No command of a run or of a session makes a file anywhere but right in the workspace, or changes a
file that is not an artifact of the run, or the one that the session was asked for.
-/
theorem calls_confined (around : Surroundings) (tools : Tools σ) (w : World σ) :
    (∀ request, RunConfined around tools request w) ∧
      ∀ keyDir errands finished, UseConfined around tools keyDir errands finished w :=
  ⟨signTargetDir_confined around tools w, Session.use_confined around tools w⟩

end BootSigning
