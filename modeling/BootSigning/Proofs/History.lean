import BootSigning.Artifact
import BootSigning.Tools

/-!
# History — the calls that operations make

A world remembers every event.  This file looks at the calls among them:

* `Call`, `World.calls`: a command with its answer, and those made so far, in order;
* `Quiet`: a stretch of work that only logs;
* `Makes`: an action that, in whatever world it starts, adds calls that fit its result.

The rules for `Makes` follow the ways of putting operations together, so that what an operation
adds to the history is read off its parts.
-/

namespace BootSigning

variable {σ α β : Type}

/-! ## Calls -/

/-- A command with its answer. -/
structure Call where
  command : Command
  reply : Reply
  deriving DecidableEq, Repr

/-- The call of an event, if it is one. -/
def Event.call? : Event → Option Call
  | .log _ => none
  | .called command _ reply => some ⟨command, reply⟩

/-- The calls made so far, in order. -/
def World.calls (w : World σ) : List Call := w.events.filterMap Event.call?

/-- The world with other files. -/
def World.withFiles (w : World σ) (fs : FileSystem) : World σ := { w with files := fs }

@[simp] theorem call?_log (record : LogRecord) : (Event.log record).call? = none := rfl

/-! ## Stretches that only log -/

/-- From `w` to `w'` nothing happened but logging. -/
structure Quiet (w w' : World σ) : Prop where
  files : w'.files = w.files
  memory : w'.memory = w.memory
  events : ∃ records : List LogRecord, w'.events = w.events ++ records.map .log

namespace Quiet

theorem refl (w : World σ) : Quiet w w := ⟨rfl, rfl, [], by simp⟩

theorem trans {w₁ w₂ w₃ : World σ} (h : Quiet w₁ w₂) (h' : Quiet w₂ w₃) : Quiet w₁ w₃ := by
  rcases h.events with ⟨first, hfirst⟩
  rcases h'.events with ⟨second, hsecond⟩
  have hevents : w₃.events = w₁.events ++ (first ++ second).map .log := by
    simp [hfirst, hsecond]
  exact ⟨h'.files.trans h.files, h'.memory.trans h.memory, first ++ second, hevents⟩

theorem calls {w w' : World σ} (h : Quiet w w') : w'.calls = w.calls := by
  rcases h.events with ⟨records, hrecords⟩
  simp [World.calls, hrecords]

theorem log (level : Level) (component : Component) (message : String) (w : World σ) :
    Quiet w ((BootSigning.log level component message : Action σ Unit).run w).2 :=
  ⟨rfl, rfl, [⟨level, component, message⟩], rfl⟩

/-- Logging once for each item of a list. -/
theorem forM {items : List α} {f : α → Action σ Unit} (h : ∀ item w, Quiet w ((f item).run w).2) :
    ∀ w, Quiet w ((items.forM f).run w).2 := by
  induction items with
  | nil => exact Quiet.refl
  | cons item rest ih => exact fun w => (h item w).trans (ih _)

/-- Logging a record for each item of a list, within an attempt. -/
theorem forM_log (items : List α) (record : α → LogRecord) (w : World σ) :
    ∃ w', (items.forM fun item => BootSigning.record (.log (record item)) :
        Attempt σ Unit).run.run w = (.ok (), w') ∧ Quiet w w' := by
  induction items generalizing w with
  | nil => exact ⟨w, rfl, Quiet.refl w⟩
  | cons item rest ih =>
    let w₁ : World σ := { w with events := w.events ++ [.log (record item)] }
    have hfirst : Quiet w w₁ := ⟨rfl, rfl, [record item], rfl⟩
    rcases ih w₁ with ⟨w', hrest, hquiet⟩
    exact ⟨w', hrest, hfirst.trans hquiet⟩

end Quiet

/-! ## Running attempts -/

theorem run_bind (x : Attempt σ α) (f : α → Attempt σ β) (w : World σ) :
    (x >>= f).run.run w =
      match x.run.run w with
      | (.ok a, w') => (f a).run.run w'
      | (.error e, w') => (.error e, w') := by
  rw [ExceptT.run_bind, StateT.run_bind]
  rcases x.run.run w with ⟨_ | _, _⟩ <;> rfl

theorem run_files (f : FileSystem → Attempt σ α) (w : World σ) :
    (files >>= f).run.run w = (f w.files).run.run w := rfl

theorem run_setFiles (fs : FileSystem) (f : Unit → Attempt σ α) (w : World σ) :
    (setFiles fs >>= f).run.run w = (f ()).run.run (w.withFiles fs) := rfl

theorem run_lifted (x : Action σ α) (f : α → Attempt σ β) (w : World σ) :
    ((x : Attempt σ α) >>= f).run.run w = (f (x.run w).1).run.run (x.run w).2 := rfl

theorem run_files_action (f : FileSystem → Action σ α) (w : World σ) :
    (files >>= f).run w = (f w.files).run w := rfl

/-- A call logs, and then is answered from the memory and the files that it found. -/
theorem call_run (tools : Tools σ) (command : Command) (w : World σ) :
    let invocation := command.invocation tools.names
    let answer := tools.executor.answer invocation w.memory w.files
    ∃ announced, Quiet w announced ∧ (tools.run command).run w =
      (answer.1, ⟨answer.2.2, answer.2.1,
        announced.events ++ [.called command invocation answer.1]⟩) := by
  intro invocation answer
  -- the command is logged, then what the executor announces; only then is there a call
  let logged := ((log .debug .tools invocation.line : Action σ Unit).run w).2
  let announced := (((tools.executor.announce invocation).forM fun r => record (.log r) :
    Action σ Unit).run logged).2
  have hquiet : Quiet w announced :=
    (Quiet.log _ _ _ w).trans (Quiet.forM (fun record w => ⟨rfl, rfl, [record], rfl⟩) logged)
  have hanswer : answer = tools.executor.answer invocation announced.memory announced.files := by
    rw [hquiet.memory, hquiet.files]
  exact ⟨announced, hquiet, hanswer ▸ rfl⟩

/-- Once a call is answered, the files and the memory are as answered, and history has the call. -/
theorem called_run (tools : Tools σ) (command : Command) (w : World σ) :
    let answer := tools.executor.answer (command.invocation tools.names) w.memory w.files
    ∃ called, (tools.run command).run w = (answer.1, called) ∧ called.files = answer.2.2 ∧
      called.memory = answer.2.1 ∧ called.calls = w.calls ++ [⟨command, answer.1⟩] := by
  intro answer
  rcases call_run tools command w with ⟨announced, hquiet, hrun⟩
  refine ⟨_, hrun, rfl, rfl, ?_⟩
  rw [← hquiet.calls]
  exact List.filterMap_append

/-! ## What actions add to the history -/

/-- In whatever world `x` starts, it adds calls that fit its result as `P` says. -/
def Makes (x : Action σ α) (P : List Call → α → Prop) : Prop :=
  ∀ w, ∃ calls, (x.run w).2.calls = w.calls ++ calls ∧ P calls (x.run w).1

namespace Makes

theorem mono {x : Action σ α} {P Q : List Call → α → Prop} (h : Makes x P)
    (hPQ : ∀ calls a, P calls a → Q calls a) : Makes x Q := by
  intro w
  rcases h w with ⟨calls, hcalls, hP⟩
  exact ⟨calls, hcalls, hPQ calls _ hP⟩

theorem pure {P : List Call → α → Prop} {a : α} (h : P [] a) :
    Makes (Pure.pure a : Action σ α) P :=
  fun w => ⟨[], (List.append_nil w.calls).symm, h⟩

theorem bind {x : Action σ α} {f : α → Action σ β} {P : List Call → α → Prop}
    {Q : List Call → β → Prop} (h : Makes x P)
    (hf : ∀ calls a, P calls a → Makes (f a) fun more b => Q (calls ++ more) b) :
    Makes (x >>= f) Q := by
  intro w
  rcases h w with ⟨calls, hcalls, hP⟩
  rcases hf calls _ hP (x.run w).2 with ⟨more, hmore, hQ⟩
  refine ⟨calls ++ more, ?_, hQ⟩
  calc ((x >>= f).run w).2.calls = (x.run w).2.calls ++ more := hmore
    _ = w.calls ++ (calls ++ more) := by rw [hcalls, List.append_assoc]

theorem of_quiet {x : Action σ α} (h : ∀ w, Quiet w (x.run w).2) :
    Makes x fun calls _ => calls = [] :=
  fun w => ⟨[], by simp [(h w).calls], rfl⟩

/-- What follows a stretch that only logs adds all there is. -/
theorem after_quiet {x : Action σ α} {f : α → Action σ β} {Q : List Call → β → Prop}
    (h : ∀ w, Quiet w (x.run w).2) (hf : ∀ a, Makes (f a) Q) : Makes (x >>= f) Q :=
  (of_quiet h).bind fun calls a hcalls => by
    subst hcalls
    exact hf a

/-- One call is one event of the history, with the answer that was given. -/
theorem run (tools : Tools σ) (command : Command) :
    Makes (tools.run command) fun calls reply => calls = [⟨command, reply⟩] := by
  intro w
  rcases called_run tools command w with ⟨called, hrun, -, -, hcalls⟩
  rw [hrun]
  exact ⟨_, hcalls, rfl⟩

/-! ### In attempts -/

variable {Q : List Call → Except SignError β → Prop}

theorem lifted {x : Action σ α} {f : α → Attempt σ β} {P : List Call → α → Prop} (h : Makes x P)
    (hf : ∀ calls a, P calls a → Makes (f a).run fun more r => Q (calls ++ more) r) :
    Makes ((x : Attempt σ α) >>= f).run Q :=
  h.bind hf

theorem attempt {x : Attempt σ α} {f : α → Attempt σ β}
    {P : List Call → Except SignError α → Prop} (h : Makes x.run P)
    (hok : ∀ calls a, P calls (.ok a) → Makes (f a).run fun more r => Q (calls ++ more) r)
    (herror : ∀ calls e, P calls (.error e) → Q calls (.error e)) : Makes (x >>= f).run Q := by
  -- an attempt within its result is an action, to which the rule for actions applies
  rw [ExceptT.run_bind]
  refine bind h fun calls r hP => ?_
  cases r with
  | ok a => exact hok calls a hP
  | error e => exact pure (by simpa using herror calls e hP)

theorem logged {f : Unit → Attempt σ β} {level : Level} {component : Component} {message : String}
    (hf : Makes (f ()).run Q) :
    Makes ((log level component message : Attempt σ Unit) >>= f).run Q :=
  after_quiet (Quiet.log level component message) fun _ => hf

theorem called {tools : Tools σ} {command : Command} {f : Reply → Attempt σ β}
    (hf : ∀ reply, Makes (f reply).run fun more r => Q (⟨command, reply⟩ :: more) r) :
    Makes ((tools.run command : Attempt σ Reply) >>= f).run Q :=
  (run tools command).lifted fun calls reply hcalls => by
    subst hcalls
    exact hf reply

/-- Work that needs a file name ends at once where there is none. -/
theorem named {path : Path} {f : Name → Attempt σ β}
    (hnone : path.fileName? = none → Q [] (.error (.invalidArtifactPath path)))
    (hsome : ∀ name, path.fileName? = some name → Makes (f name).run Q) :
    Makes ((fileName path : Attempt σ Name) >>= f).run Q := by
  cases hname : path.fileName? with
  | none =>
    rw [fileName, hname]
    exact pure (hnone hname)
  | some name =>
    rw [fileName, hname]
    exact hsome name hname

end Makes

end BootSigning
