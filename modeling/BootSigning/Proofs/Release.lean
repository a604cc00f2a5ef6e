import BootSigning.Proofs.Edits
import BootSigning.Proofs.Runs
import Mathlib.Logic.Relation

/-!
# Release — a workspace from its making to its removal

A run makes one directory, hands its files to the tools, and removes it at the end, whichever end
that is.  What tools do in between is theirs; what the run does by itself is followed stretch by
stretch.

* `Trail`: the calls of a run, all of which work in its workspace, and between them nothing but the
  emptying of the table in it;
* `Works`: an action that leaves such a trail, with rules for the ways of putting actions together;
* `Released`: a workspace that was made, used, kept and removed.

`workspace_released` says so of every run and of every session, in whatever order it is asked for
its operations and however it ends.  The run itself touches nothing outside its workspace unless a
tool leaves a link in place of the table, and nothing stays of the workspace but what the system
does not let it remove: `release_falls_short`.
-/

namespace BootSigning

open FileSystem

variable {σ α β : Type}

/-! ## What a run does by itself -/

/-- The table was emptied, once or more often or not at all. -/
def Empties (table : Path) : FileSystem → FileSystem → Prop :=
  Relation.ReflTransGen fun fs fs' => fs.write table [] = .ok fs'

/-- No directory is made or removed, and nothing else is removed. -/
structure KeepsEntries (fs fs' : FileSystem) : Prop where
  directory : ∀ place, fs'.node? place = some .directory ↔ fs.node? place = some .directory
  present : ∀ place, fs.node? place ≠ none → fs'.node? place ≠ none

/-- The name of the table in a workspace. -/
def tableName : Name := Utf8.encode "sbat.csv"

/-- No link stands where the table belongs in the workspace at `loc`. -/
def NoLink (loc : Location) (fs : FileSystem) : Prop :=
  ∀ target, fs.node? (tableName :: loc) ≠ some (.symlink target)

theorem keepsEntries_of_differ {fs fs' : FileSystem} {place : Location}
    (h : DifferAtLeaf fs fs' place) : KeepsEntries fs fs' := by
  rcases h.after with ⟨new, hnew, hleaf⟩
  refine ⟨fun other => ?_, fun other hother => ?_⟩
  · by_cases hplace : other = place
    · -- a leaf is there now, and at most a leaf was there before
      subst hplace
      rw [hnew]
      constructor
      · intro hdir
        exact absurd (Option.some.inj hdir) hleaf.1
      · intro hdir
        exact absurd rfl (h.before _ hdir).1
    · rw [h.elsewhere other hplace]
  · by_cases hplace : other = place
    · simp [hplace, hnew]
    · rwa [h.elsewhere other hplace]

namespace Empties

variable {table ws p : Path} {fs fs' : FileSystem} {loc : Location}

theorem keepsEntries (h : Empties table fs fs') : KeepsEntries fs fs' := by
  induction h with
  | refl => exact ⟨fun _ => Iff.rfl, fun _ => id⟩
  | tail _ hwrite ih =>
    rcases differ_of_write hwrite with ⟨_, _, hdiffer, _⟩
    have hlast := keepsEntries_of_differ hdiffer
    exact ⟨fun place => (hlast.directory place).trans (ih.directory place),
      fun place => hlast.present place ∘ ih.present place⟩

/-- No directory is lost on the way. -/
theorem leadsTo (h : Empties table fs fs') (hleads : LeadsTo fs p loc) : LeadsTo fs' p loc := by
  induction h with
  | refl => exact hleads
  | tail _ hwrite ih =>
    rcases differ_of_write hwrite with ⟨_, _, hdiffer, _⟩
    exact ih.of_differ hdiffer.differAt

/-- Where no link stands in its place, the table is in the workspace and stays there. -/
theorem within (h : Empties (Sbat.fileIn ws) fs fs') (hleads : LeadsTo fs ws loc)
    (hplain : NoLink loc fs) : SameOutside loc fs fs' ∧ NoLink loc fs' := by
  induction h with
  | refl => exact ⟨fun _ _ => rfl, hplain⟩
  | @tail fs₁ fs₂ hfirst hwrite ih =>
    rcases ih with ⟨hsame, hplain₁⟩
    rcases differ_of_write hwrite with ⟨place, hresolve, hdiffer, _⟩
    have hleads₁ := Empties.leadsTo hfirst hleads
    have hempty : ws.bytes ≠ [] := (walk_of_resolve hleads₁.resolves).2.1
    have hplace : place = tableName :: loc :=
      resolve_child hempty hleads₁.follows (by decide +kernel)
        ⟨by decide +kernel, by decide +kernel⟩ hplain₁ hresolve
    subst hplace
    have hlast := SameOutside.of_differ hdiffer.differAt (isWithin_child tableName loc)
    refine ⟨fun other hother => (hlast other hother).trans (hsame other hother), ?_⟩
    intro target hlink
    rcases hdiffer.after with ⟨new, hnew, hleaf⟩
    exact hleaf.2 target (Option.some.inj (hnew.symm.trans hlink))

end Empties

/-- From `w` to `w'` nothing was called, and no file was changed but a table emptied. -/
structure ByItself (ws : Path) (w w' : World σ) : Prop where
  calls : w'.calls = w.calls
  memory : w'.memory = w.memory
  files : Empties (Sbat.fileIn ws) w.files w'.files

namespace ByItself

variable {ws : Path} {w w₁ w' : World σ}

theorem of_quiet (h : Quiet w w') : ByItself ws w w' := by
  refine ⟨h.calls, h.memory, ?_⟩
  rw [h.files]
  exact .refl

theorem trans (h : ByItself ws w w₁) (h' : ByItself ws w₁ w') : ByItself ws w w' :=
  ⟨h'.calls.trans h.calls, h'.memory.trans h.memory, h.files.trans h'.files⟩

end ByItself

/-! ## Trails -/

/-- The files that a command leaves for later ones, and those that it takes from earlier ones. -/
def Command.intermediates : Command → List Path
  | .dumpSection _ _ dest scratch => [dest, scratch]
  | .updateSection _ _ _ output => [output]
  | .sign _ _ output _ => [output]
  | .privilegedCopy source _ _ => [source]
  | .stripSignature _ | .verify _ _ => []

/-- They are all files right in the workspace. -/
def Command.WorksIn (ws : Path) (command : Command) : Prop :=
  ∀ p ∈ command.intermediates, ∃ name : Name, Path.slash ∉ name ∧ p = ws / (⟨name⟩ : Path)

/-- A call of a tool, with the worlds before and after it. -/
structure Calling (σ : Type) where
  before : World σ
  command : Command
  reply : Reply
  after : World σ

namespace Calling

def call (calling : Calling σ) : Call := ⟨calling.command, calling.reply⟩

/-- The tool leaves the workspace a directory where it is. -/
def Keeps (ws : Path) (loc : Location) (calling : Calling σ) : Prop :=
  LeadsTo calling.before.files ws loc → LeadsTo calling.after.files ws loc

end Calling

/-- From one world to another by calls that work in the workspace; the rest the run does itself. -/
inductive Trail (tools : Tools σ) (ws : Path) : World σ → List (Calling σ) → World σ → Prop where
  | rest {w w' : World σ} (hown : ByItself ws w w') : Trail tools ws w [] w'
  | call {w w' : World σ} {calling : Calling σ} {callings : List (Calling σ)}
      (hown : ByItself ws w calling.before)
      (hcall : (tools.run calling.command).run calling.before = (calling.reply, calling.after))
      (hinside : calling.command.WorksIn ws) (hrest : Trail tools ws calling.after callings w') :
      Trail tools ws w (calling :: callings) w'

/-- The relation holds of the files over every stretch between calls. -/
def Between (R : FileSystem → FileSystem → Prop) (w : World σ) :
    List (Calling σ) → World σ → Prop
  | [], w' => R w.files w'.files
  | calling :: callings, w' => R w.files calling.before.files ∧ Between R calling.after callings w'

namespace Trail

variable {tools : Tools σ} {ws : Path} {loc : Location} {w w₁ w' : World σ}
  {callings more : List (Calling σ)}

theorem after_own (hown : ByItself ws w w₁) (h : Trail tools ws w₁ callings w') :
    Trail tools ws w callings w' := by
  cases h with
  | rest hend => exact .rest (hown.trans hend)
  | call hfirst hcall hinside hrest => exact .call (hown.trans hfirst) hcall hinside hrest

theorem append (h : Trail tools ws w callings w₁) (h' : Trail tools ws w₁ more w') :
    Trail tools ws w (callings ++ more) w' := by
  induction h with
  | rest hown => exact h'.after_own hown
  | call hown hcall hinside _ ih => exact .call hown hcall hinside (ih h')

/-- A trail has all the calls that were made. -/
theorem calls (h : Trail tools ws w callings w') :
    w'.calls = w.calls ++ callings.map Calling.call := by
  induction h with
  | rest hown => rw [hown.calls, List.map_nil, List.append_nil]
  | @call w w' calling callings hown hcall _ _ ih =>
    rcases called_run tools calling.command calling.before with ⟨called, hrun, -, -, hcalls⟩
    rcases Prod.mk.inj (hcall.symm.trans hrun) with ⟨hreply, rfl⟩
    rw [ih, hcalls, ← hreply, hown.calls, List.append_assoc]
    rfl

theorem inside (h : Trail tools ws w callings w') :
    ∀ calling ∈ callings, calling.command.WorksIn ws := by
  induction h with
  | rest => exact nofun
  | call _ _ hinside _ ih => exact List.forall_mem_cons.2 ⟨hinside, ih⟩

/-- What the emptying of a table brings about holds between all calls. -/
theorem between {R : FileSystem → FileSystem → Prop}
    (hR : ∀ fs fs', Empties (Sbat.fileIn ws) fs fs' → R fs fs')
    (h : Trail tools ws w callings w') : Between R w callings w' := by
  induction h with
  | rest hown => exact hR _ _ hown.files
  | call hown _ _ _ ih => exact ⟨hR _ _ hown.files, ih⟩

/-- A workspace that the tools keep is found by every call, and at the end. -/
theorem kept (h : Trail tools ws w callings w') (hstart : LeadsTo w.files ws loc)
    (hkeeps : ∀ calling ∈ callings, calling.Keeps ws loc) :
    (∀ calling ∈ callings, LeadsTo calling.before.files ws loc) ∧ LeadsTo w'.files ws loc := by
  induction h with
  | rest hown => exact ⟨nofun, hown.files.leadsTo hstart⟩
  | call hown _ _ _ ih =>
    rcases List.forall_mem_cons.1 hkeeps with ⟨hfirst, hrest⟩
    have hbefore := hown.files.leadsTo hstart
    rcases ih (hfirst hbefore) hrest with ⟨hcallings, hend⟩
    exact ⟨List.forall_mem_cons.2 ⟨hbefore, hcallings⟩, hend⟩

/-- Without a link in place of the table the run itself keeps to its workspace. -/
theorem apart (h : Trail tools ws w callings w') (hstart : LeadsTo w.files ws loc)
    (hplain : NoLink loc w.files) (hkeeps : ∀ calling ∈ callings, calling.Keeps ws loc)
    (hleaves : ∀ calling ∈ callings, NoLink loc calling.after.files) :
    Between (SameOutside loc) w callings w' := by
  induction h with
  | rest hown => exact (hown.files.within hstart hplain).1
  | call hown _ _ _ ih =>
    rcases List.forall_mem_cons.1 hkeeps with ⟨hfirst, hrest⟩
    rcases List.forall_mem_cons.1 hleaves with ⟨hlink, hlinks⟩
    have hbefore := hown.files.leadsTo hstart
    exact ⟨(hown.files.within hstart hplain).1, ih (hfirst hbefore) hlink hrest hlinks⟩

end Trail

/-! ## Actions and their trails -/

/-- In whatever world the action starts, it leaves a trail. -/
def Works (tools : Tools σ) (ws : Path) (x : Action σ α) : Prop :=
  ∀ w, ∃ callings, Trail tools ws w callings (x.run w).2

namespace Works

variable {tools : Tools σ} {ws : Path}

theorem of_own {x : Action σ α} (h : ∀ w, ByItself ws w (x.run w).2) : Works tools ws x :=
  fun w => ⟨[], .rest (h w)⟩

theorem of_quiet {x : Action σ α} (h : ∀ w, Quiet w (x.run w).2) : Works tools ws x :=
  of_own fun w => .of_quiet (h w)

theorem pure (a : α) : Works tools ws (Pure.pure a) := of_quiet Quiet.refl

theorem bind {x : Action σ α} {f : α → Action σ β} (h : Works tools ws x)
    (hf : ∀ a, Works tools ws (f a)) : Works tools ws (x >>= f) := by
  intro w
  rcases h w with ⟨callings, htrail⟩
  rcases hf (x.run w).1 (x.run w).2 with ⟨more, hmore⟩
  exact ⟨callings ++ more, htrail.append hmore⟩

theorem run {command : Command} (hinside : command.WorksIn ws) :
    Works tools ws (tools.run command) := by
  intro w
  let after := ((tools.run command).run w).2
  have hown : ByItself ws w w := .of_quiet (Quiet.refl w)
  have hafter : ByItself ws after after := .of_quiet (Quiet.refl after)
  exact ⟨[⟨w, command, ((tools.run command).run w).1, after⟩],
    .call hown rfl hinside (.rest hafter)⟩

/-! ### In attempts -/

theorem attempt {x : Attempt σ α} {f : α → Attempt σ β} (h : Works tools ws x.run)
    (hf : ∀ a, Works tools ws (f a).run) : Works tools ws (x >>= f).run := by
  rw [ExceptT.run_bind]
  refine bind h fun r => ?_
  cases r with
  | ok a => exact hf a
  | error e => exact pure _

theorem lifted {x : Action σ α} {f : α → Attempt σ β} (h : Works tools ws x)
    (hf : ∀ a, Works tools ws (f a).run) : Works tools ws ((x : Attempt σ α) >>= f).run :=
  h.bind hf

theorem logged {f : Unit → Attempt σ β} {level : Level} {component : Component} {message : String}
    (hf : Works tools ws (f ()).run) :
    Works tools ws ((log level component message : Attempt σ Unit) >>= f).run :=
  lifted (of_quiet (Quiet.log level component message)) fun _ => hf

theorem called {command : Command} {f : Reply → Attempt σ β} (hinside : command.WorksIn ws)
    (hf : ∀ reply, Works tools ws (f reply).run) :
    Works tools ws ((tools.run command : Attempt σ Reply) >>= f).run :=
  lifted (run hinside) hf

/-- Work that needs a file name gets one that is a single name. -/
theorem named {path : Path} {f : Name → Attempt σ β}
    (h : ∀ name, Path.slash ∉ name → Works tools ws (f name).run) :
    Works tools ws ((fileName path : Attempt σ Name) >>= f).run := by
  cases hname : path.fileName? with
  | none =>
    rw [fileName, hname]
    exact pure _
  | some name =>
    rw [fileName, hname]
    exact h name (Path.slash_notMem_fileName hname)

end Works

/-! ## The operations of a session -/

section

variable (tools : Tools σ) (ws : Path)

/-- The table is left as it is, or it is emptied. -/
theorem settle_own (artifact : Path) (reply : Reply) (w : World σ) :
    ByItself ws w ((Sbat.settle artifact (Sbat.fileIn ws) reply).run.run w).2 := by
  cases hreply : reply.succeeded with
  | true =>
    rw [Sbat.settle, hreply]
    exact .of_quiet (Quiet.refl w)
  | false =>
    rcases settle_failed artifact (Sbat.fileIn ws) hreply w with ⟨logged, hquiet, hsettle⟩
    rw [hsettle]
    cases hwrite : w.files.write (Sbat.fileIn ws) [] with
    | error fault => exact .of_quiet hquiet
    | ok fs => exact ⟨hquiet.calls, hquiet.memory, .single hwrite⟩

theorem works_classify (artifact : Path) :
    Works tools ws (Sbat.isCrdyboot tools ws artifact) := by
  rw [Sbat.isCrdyboot]
  refine Works.bind (Works.named fun name hslash => ?_) fun r => ?_
  · have hinside : (Command.dumpSection artifact Sbat.sectionName (Sbat.fileIn ws)
        (Sbat.scratchIn ws name)).WorksIn ws := by
      have hscratch : Path.slash ∉ name ++ Utf8.encode ".tmp" := by
        rw [List.mem_append, not_or]
        exact ⟨hslash, by decide +kernel⟩
      exact List.forall_mem_cons.2 ⟨⟨tableName, by decide +kernel, rfl⟩,
        List.forall_mem_singleton.2 ⟨_, hscratch, rfl⟩⟩
    exact Works.called hinside fun reply => Works.of_own (settle_own ws artifact reply)
  · exact Works.of_quiet (conclude_quiet artifact r)

theorem works_mustRun {command : Command} (hinside : command.WorksIn ws)
    (failure : String → SignError) :
    Works tools ws (Injection.mustRun tools command failure).run := by
  refine Works.called hinside fun reply => ?_
  cases reply.check with
  | ok => exact Works.pure _
  | error text => exact Works.pure _

theorem works_inject (keyDir artifact : Path) :
    Works tools ws (Injection.inject tools keyDir ws artifact).run := by
  refine Works.named fun name hslash => Works.logged ?_
  have hcopy : Path.slash ∉ name ++ Utf8.encode ".injected" := by
    rw [List.mem_append, not_or]
    exact ⟨hslash, by decide +kernel⟩
  -- the copy is made by the first call and taken by the second
  refine Works.attempt (works_mustRun tools ws ?_ _) fun _ => works_mustRun tools ws ?_ _
  · exact List.forall_mem_singleton.2 ⟨_, hcopy, rfl⟩
  · exact List.forall_mem_singleton.2 ⟨_, hcopy, rfl⟩

end

theorem works_sign (s : Signer σ) (target : Path) :
    Works s.tools s.workspace.path (s.sign target).run := by
  refine Works.logged (Works.named fun name hslash => ?_)
  have hcopy : ∃ other : Name, Path.slash ∉ other ∧
      s.copyOf name = s.workspace.path / (⟨other⟩ : Path) := ⟨name, hslash, rfl⟩
  have hinstall : Works s.tools s.workspace.path (s.install (s.copyOf name) target).run := by
    refine Works.called (List.forall_mem_singleton.2 hcopy) fun copied => ?_
    cases copied.check with
    | error text => exact Works.pure _
    | ok =>
      refine Works.called nofun fun checked => ?_
      cases checked.check with
      | error text => exact Works.pure _
      | ok => exact Works.pure _
  have hproduce : Works s.tools s.workspace.path (s.produce (s.copyOf name) target).run := by
    refine Works.called (List.forall_mem_singleton.2 hcopy) fun made => ?_
    cases made.check with
    | error text => exact Works.logged (Works.logged (Works.pure _))
    | ok => exact hinstall
  refine Works.called nofun fun stripped => ?_
  cases stripped.check with
  | error text => exact Works.logged hproduce
  | ok => exact hproduce

/-! ## Whole runs and sessions -/

section

variable (session : Session σ)

theorem trail_of_step {step : Step σ} (h : step.IsOf session.ops) :
    ∃ callings, Trail session.signer.tools session.signer.workspace.path step.before callings
      step.after := by
  rcases step with ⟨before, deed, after⟩
  cases deed with
  | classified p verdict =>
    have hworks := works_classify session.signer.tools session.signer.workspace.path p before
    rwa [show (Sbat.isCrdyboot _ _ p).run before = (verdict, after) from h] at hworks
  | injected p r =>
    have hworks := works_inject session.signer.tools session.signer.workspace.path session.keyDir p
      before
    rwa [show (Injection.inject _ _ _ p).run.run before = (r, after) from h] at hworks
  | signed p r =>
    have hworks := works_sign session.signer p before
    rwa [show (session.signer.sign p).run.run before = (r, after) from h] at hworks

theorem trail_of_course {w w' : World σ} {steps : List (Step σ)}
    (h : Course session.ops w steps w') :
    ∃ callings, Trail session.signer.tools session.signer.workspace.path w callings w' := by
  induction h with
  | quiet hquiet => exact ⟨[], .rest (.of_quiet hquiet)⟩
  | step hquiet hstep _ ih =>
    rcases trail_of_step session hstep with ⟨callings, htrail⟩
    rcases ih with ⟨more, hmore⟩
    exact ⟨callings ++ more, (htrail.append hmore).after_own (.of_quiet hquiet)⟩

end

/-- One thing that a session can be asked for. -/
inductive Errand where
  | classify (artifact : Path)
  | inject (artifact : Path)
  | sign (artifact : Path)

/-- The operation that was asked for, whatever it comes to. -/
def Session.carryOut (s : Session σ) : Errand → Action σ Unit
  | .classify p => do
    let _ ← s.ops.classify p
    return ()
  | .inject p => do
    let _ ← (s.ops.inject p).run
    return ()
  | .sign p => do
    let _ ← (s.ops.sign p).run
    return ()

/-- A session is opened, carries out errands, and then is finished, or dropped. -/
def Session.use (around : Surroundings) (tools : Tools σ) (keyDir : Path) (errands : List Errand)
    (finished : Bool) : Attempt σ Unit := do
  let session ← Session.start around tools keyDir
  (errands.forM session.carryOut : Action σ Unit)
  if finished then session.finish else session.discard

theorem works_carryOut (session : Session σ) (errand : Errand) :
    Works session.signer.tools session.signer.workspace.path (session.carryOut errand) := by
  cases errand with
  | classify p => exact (works_classify _ _ p).bind fun _ => Works.pure _
  | inject p => exact (works_inject _ _ _ p).bind fun _ => Works.pure _
  | sign p => exact (works_sign _ p).bind fun _ => Works.pure _

theorem works_errands (session : Session σ) (errands : List Errand) :
    Works session.signer.tools session.signer.workspace.path (errands.forM session.carryOut) := by
  induction errands with
  | nil => exact Works.pure ()
  | cons errand rest ih => exact (works_carryOut session errand).bind fun _ => ih

/-! ## From the making to the removal -/

/--
The workspace of a run from `w` to `w'`: it was there in `w₁`, calls came after that, and in `w₂` it
was to be removed; `success` says that the removal was reported to have come to its end.
-/
structure Released (around : Surroundings) (tools : Tools σ) (ws : Path) (loc : Location)
    (w w₁ : World σ) (callings : List (Calling σ)) (w₂ w' : World σ) (success : Prop) : Prop where
  /-- Its name is one of those proposed, in the directory for temporary files. -/
  named : ∃ proposal ∈ around.proposals, ws =
    Workspace.fromRoot w.files around.temporary / (⟨Workspace.namePrefix ++ proposal⟩ : Path)
  /-- It is made where nothing was, and nothing else is changed. -/
  made : IsMade w.files w₁.files loc
  leads : LeadsTo w₁.files ws loc
  /-- All calls of the run come after that. -/
  calls : w'.calls = w.calls ++ callings.map Calling.call
  trail : Trail tools ws w₁ callings w₂
  /-- They work in that one workspace. -/
  inside : ∀ calling ∈ callings, calling.command.WorksIn ws
  /-- Between them the run makes no other directory, and removes nothing. -/
  own : Between KeepsEntries w₁ callings w₂
  /-- A workspace that every tool leaves where it is is there for every call, and at the end. -/
  kept : (∀ calling ∈ callings, calling.Keeps ws loc) →
    (∀ calling ∈ callings, LeadsTo calling.before.files ws loc) ∧ LeadsTo w₂.files ws loc
  /-- The end removes it with all that is in it, where the system lets all that be removed. -/
  gone : LeadsTo w₂.files ws loc → w₂.files.Removable loc → ∀ place,
    w'.files.node? place = if isWithin loc place then none else w₂.files.node? place
  /-- The end is reported to be a success only where it is one. -/
  reported : success → LeadsTo w₂.files ws loc → w₂.files.Removable loc
  /-- A removal that does not come to its end takes nothing else away either. -/
  spared : LeadsTo w₂.files ws loc → SameOutside loc w₂.files w'.files
  /-- Unless a tool leaves a link in place of the table, the run changes nothing outside. -/
  apart : (∀ calling ∈ callings, calling.Keeps ws loc) →
    (∀ calling ∈ callings, NoLink loc calling.after.files) →
    Between (SameOutside loc) w₁ callings w₂

/--
What can open no session ends with that error and leaves nothing; what opens one releases the
workspace that it has.
-/
def Releases (around : Surroundings) (tools : Tools σ) (w : World σ)
    (opening : Attempt σ (Session σ)) (x : Attempt σ α) (success : Prop) : Prop :=
  match opening.run.run w with
  | (.error e, _) => x.run.run w = (.error e, w)
  | (.ok session, w₁) => ∃ loc callings w₂,
    Released around tools session.signer.workspace.path loc w w₁ callings w₂ (x.run.run w).2 success

/-- The name of a fresh workspace is one of those proposed. -/
theorem Workspace.named_of_makeFresh {fs fs' : FileSystem} {parent ws : Path}
    {proposals : List Name} (h : makeFresh fs parent proposals = .ok (fs', ws)) :
    ∃ proposal ∈ proposals, ws = parent / (⟨namePrefix ++ proposal⟩ : Path) := by
  induction proposals with
  | nil => cases h
  | cons proposal rest ih =>
    have hlater : makeFresh fs parent rest = .ok (fs', ws) →
        ∃ other ∈ proposal :: rest, ws = parent / (⟨namePrefix ++ other⟩ : Path) := by
      intro hrest
      rcases ih hrest with ⟨other, hother, hws⟩
      exact ⟨other, List.mem_cons_of_mem proposal hother, hws⟩
    rw [makeFresh] at h
    split at h
    · exact hlater h
    · dsimp only at h
      split at h
      · cases h
        exact ⟨proposal, List.mem_cons_self, rfl⟩
      · split at h
        · exact hlater h
        · cases h

/-- What a session does between its beginning and its end decides that its workspace is released. -/
theorem released_of_trail {around : Surroundings} {tools : Tools σ} {fs : FileSystem} {ws : Path}
    {w w₁ w₂ w' : World σ} {callings : List (Calling σ)} {success : Prop}
    (hfresh : Workspace.makeFresh w.files (Workspace.fromRoot w.files around.temporary)
      around.proposals = .ok (fs, ws))
    (hopened : Quiet (w.withFiles fs) w₁) (htrail : Trail tools ws w₁ callings w₂)
    (hended : Quiet (w₂.withFiles (Workspace.without ⟨ws⟩ w₂.files)) w')
    (hsuccess : success → (w₂.files.removeDirectory ws).fault = none) :
    ∃ loc, Released around tools ws loc w w₁ callings w₂ w' success := by
  have hfs : w₁.files = fs := hopened.files
  rcases Workspace.isMade_of_makeFresh hfresh with ⟨loc, hmade, hleads⟩
  rw [← hfs] at hmade hleads
  -- in a directory that was just made no link can stand
  have hplain : NoLink loc w₁.files := by simp [NoLink, hmade.empty]
  have hcalls : w'.calls = w.calls ++ callings.map Calling.call := by
    rw [show w'.calls = w₂.calls from hended.calls, htrail.calls,
      show w₁.calls = w.calls from hopened.calls]
  have hfiles : LeadsTo w₂.files ws loc → w'.files = (w₂.files.removeTree loc).files := by
    intro hend
    rw [hended.files, ← hend.removeDirectory]
    rfl
  refine ⟨loc, Workspace.named_of_makeFresh hfresh, hmade, hleads, hcalls, htrail, htrail.inside,
    htrail.between fun _ _ => Empties.keepsEntries, htrail.kept hleads, ?_, ?_, ?_,
    htrail.apart hleads hplain⟩
  · intro hend hremovable place
    rw [hfiles hend, removeTree_of_removable hmade.ne_root hend.directory hremovable,
      node?_eraseWithin hmade.ne_root]
  · intro hreported hend
    rw [← removeTree_complete_iff hmade.ne_root hend.directory, ← hend.removeDirectory]
    exact hsuccess hreported
  · intro hend
    rw [hfiles hend]
    exact removeTree_sameOutside hmade.ne_root

section

variable (around : Surroundings) (tools : Tools σ) (w : World σ)

theorem signTargetDir_releases (request : SignRequest) :
    Releases around tools w
      (orFail (SigningPlan.ofPattern request.bootloaders) >>= fun _ =>
        Session.start around tools request.keyDir)
      (signTargetDir around tools request)
      (∃ summary, ((signTargetDir around tools request).run.run w).1 = .ok summary) := by
  cases hplan : SigningPlan.ofPattern request.bootloaders with
  | error e =>
    rw [Releases, signTargetDir, hplan]
    rfl
  | ok plan =>
    simp only [Releases, orFail, pure_bind]
    rcases Session.start_cases around tools request.keyDir w with
      ⟨e, hstart⟩ | ⟨fs, ws, w₁, hfresh, hopened, hstart⟩
    · rw [hstart]
      simp only [signTargetDir, hplan, orFail, pure_bind]
      rw [run_bind, hstart]
    · let session : Session σ :=
        ⟨⟨tools, Credentials.below request.keyDir, ⟨ws⟩⟩, request.keyDir⟩
      rw [hstart]
      -- the run goes from one operation of its session to the next, and then ends it
      rcases hrun : (Orchestration.run ⟨request.targetDir⟩ plan session.ops).run.run w₁ with
        ⟨r, w₂⟩
      rcases signTargetDir_ended around tools request hplan hstart hrun with ⟨hended, hresult⟩
      have hgoes := goes_run session.ops ⟨request.targetDir⟩ plan w₁
      rw [Goes, hrun] at hgoes
      rcases hgoes with ⟨steps, hcourse, _⟩
      rcases trail_of_course session hcourse with ⟨callings, htrail⟩
      have hsuccess : (∃ summary, ((signTargetDir around tools request).run.run w).1 =
          .ok summary) → (w₂.files.removeDirectory ws).fault = none := by
        rintro ⟨summary, hok⟩
        exact (Session.ending_eq_ok.1 (hresult.symm.trans hok)).2
      rcases released_of_trail hfresh hopened htrail hended hsuccess with ⟨loc, hreleased⟩
      exact ⟨loc, callings, w₂, hreleased⟩

theorem Session.use_releases (keyDir : Path) (errands : List Errand) (finished : Bool) :
    Releases around tools w (Session.start around tools keyDir)
      (Session.use around tools keyDir errands finished)
      (finished = true ∧
        ((Session.use around tools keyDir errands finished).run.run w).1 = .ok ()) := by
  rw [Releases, Session.use, run_bind]
  rcases Session.start_cases around tools keyDir w with
    ⟨e, hstart⟩ | ⟨fs, ws, w₁, hfresh, hopened, hstart⟩
  · rw [hstart]
  · rw [hstart]
    let session : Session σ := ⟨⟨tools, Credentials.below keyDir, ⟨ws⟩⟩, keyDir⟩
    rcases works_errands session errands w₁ with ⟨callings, htrail⟩
    let w₂ := ((errands.forM session.carryOut).run w₁).2
    let ending : Attempt σ Unit := if finished then session.finish else session.discard
    have hended : Quiet (w₂.withFiles (session.signer.workspace.without w₂.files))
        (ending.run.run w₂).2 := by
      cases finished with
      | true => exact (finish_run session w₂).1
      | false => exact discard_run session w₂
    have hsuccess : finished = true ∧ (ending.run.run w₂).1 = .ok () →
        (w₂.files.removeDirectory ws).fault = none := by
      rintro ⟨rfl, hok⟩
      have hfinish := (finish_run session w₂).2.symm.trans hok
      cases hfault : (w₂.files.removeDirectory ws).fault with
      | none => rfl
      | some fault =>
        rw [show (w₂.files.removeDirectory session.signer.workspace.path).fault = some fault
          from hfault] at hfinish
        cases hfinish
    rcases released_of_trail hfresh hopened htrail hended hsuccess with ⟨loc, hreleased⟩
    exact ⟨loc, callings, w₂, hreleased⟩

end

/--
Every run releases its workspace, and so does every session: the one directory that it makes is the
one that all its calls work in, stays until the end, and then is gone with all that is in it, if the
system lets the run remove that.
-/
theorem workspace_released (around : Surroundings) (tools : Tools σ) (w : World σ) :
    (∀ request : SignRequest, Releases around tools w
      (orFail (SigningPlan.ofPattern request.bootloaders) >>= fun _ =>
        Session.start around tools request.keyDir)
      (signTargetDir around tools request)
      (∃ summary, ((signTargetDir around tools request).run.run w).1 = .ok summary)) ∧
      ∀ keyDir errands finished, Releases around tools w (Session.start around tools keyDir)
        (Session.use around tools keyDir errands finished)
        (finished = true ∧
          ((Session.use around tools keyDir errands finished).run.run w).1 = .ok ()) :=
  ⟨signTargetDir_releases around tools w, Session.use_releases around tools w⟩

/-! ## What a run does not clear away -/

namespace SmallBoot

/--
Cannot extract a table and leaves a link in its place; remembers how each call left the files.
-/
def linker : Executor (List FileSystem) where
  announce _ := []
  answer call left fs :=
    if call.program = "objcopy" then
      let linked := Entry.orUnchanged fs (fs.link "/tmp/sign-uefi-0/sbat.csv" "/tmp/elsewhere")
      (.finished ⟨.exited 1, [], []⟩, left ++ [linked], linked)
    else (.finished ⟨.exited 0, [], []⟩, left ++ [fs], fs)

/--
Leaves a file in a directory of the workspace that nothing may be taken from, and what it signs does
not verify; remembers how each call left the files.
-/
def keeper : Executor (List FileSystem) where
  announce _ := []
  answer call left fs :=
    if call.program = "sbsign" then
      let opened := Entry.orUnchanged fs (fs.makeDirectory "/tmp/sign-uefi-0/kept")
      let filled := Entry.orUnchanged opened (opened.write "/tmp/sign-uefi-0/kept/copy" [])
      let closed := filled.withRefusal (place ["tmp", "sign-uefi-0", "kept"]) .write
        (some .accessDenied)
      (.finished ⟨.exited 0, [], []⟩, left ++ [closed], closed)
    else if call.program = "sbverify" then (.finished ⟨.exited 1, [], []⟩, left ++ [fs], fs)
    else (.finished ⟨.exited 0, [], []⟩, left ++ [fs], fs)

/-- The run with such an executor. -/
def runWith (executor : Executor (List FileSystem)) :
    Except SignError Summary × World (List FileSystem) :=
  (signTargetDir surroundings ⟨{}, executor⟩ request).run.run ⟨files, [], []⟩

end SmallBoot

/--
Every call leaves the workspace a directory, and yet: where a tool fails and leaves a link in place
of the table, the run makes the file that the link leads to, beside its workspace; and where a tool
leaves something that cannot be removed, and a later one fails, the workspace stays and the run
reports only that failure.
-/
theorem release_falls_short :
    let linked := SmallBoot.runWith SmallBoot.linker
    let stuck := SmallBoot.runWith SmallBoot.keeper
    let workspace := SmallBoot.place ["tmp", "sign-uefi-0"]
    let elsewhere := SmallBoot.place ["tmp", "elsewhere"]
    (SmallBoot.files.node? elsewhere = none ∧
      (∀ fs ∈ linked.2.memory,
        fs.node? workspace = some .directory ∧ fs.node? elsewhere = none) ∧
      linked.2.files.node? elsewhere = some (.file newFileMode [])) ∧
    SmallBoot.files.node? workspace = none ∧
      (∀ fs ∈ stuck.2.memory, fs.node? workspace = some .directory) ∧
      stuck.1 = .error (.verificationFailed "/boot/efi/boot/bootx64.efi" "exit status: 1") ∧
      stuck.2.files.node? workspace = some .directory := by
  decide +kernel

end BootSigning
