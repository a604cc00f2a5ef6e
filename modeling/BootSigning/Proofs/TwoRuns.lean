import BootSigning.Proofs.Likeness
import BootSigning.Proofs.Runs

/-!
# TwoRuns — what a run takes from the answers to its calls

Two executors answer alike if, after the same calls, each makes the same changes to the files and
succeeds where the other does; the removal of a signature may succeed with one and fail with the
other.

* `World.commandLines`: the programs that were called, with their arguments;
* `Executor.memoryAfter`, `AnswersAlike`: what a history of calls leaves, and executors that no
  history tells apart;
* `runs_alike`: with executors that answer alike, runs of one request issue the same command lines
  and come to the same end.

What programs write, their exit codes and signals, and why one of them could not be started have
thus no part in what a run does; they show only in the words of its error and in the log.
-/

namespace BootSigning

variable {σ τ : Type}

/-! ## Command lines -/

/-- The program and arguments of an event, if it is a call. -/
def Event.invocation? : Event → Option Invocation
  | .log _ => none
  | .called _ invocation _ => some invocation

/-- The programs called so far with their arguments, in order. -/
def World.commandLines (w : World σ) : List Invocation := w.events.filterMap Event.invocation?

theorem Quiet.commandLines {w w' : World σ} (h : Quiet w w') :
    w'.commandLines = w.commandLines := by
  rcases h.events with ⟨records, hrecords⟩
  have hnone : (records.map Event.log).filterMap Event.invocation? = [] :=
    List.filterMap_eq_nil_iff.2 (List.forall_mem_map.2 fun _ _ => rfl)
  rw [World.commandLines, hrecords, List.filterMap_append, hnone, List.append_nil]
  rfl

theorem commandLines_of_call (tools : Tools σ) (command : Command) (w : World σ) :
    ((tools.run command).run w).2.commandLines =
      w.commandLines ++ [command.invocation tools.names] := by
  rcases call_run tools command w with ⟨announced, hquiet, hrun⟩
  rw [hrun, ← hquiet.commandLines]
  exact List.filterMap_append

/-! ## Executors that answer alike -/

/-- The memory of an executor after calls, each with the files that it found. -/
def Executor.memoryAfter (e : Executor σ) (names : ToolNames) (m : σ)
    (history : List (Command × FileSystem)) : σ :=
  history.foldl (fun m (command, fs) => (e.answer (command.invocation names) m fs).2.1) m

theorem Executor.memoryAfter_concat (e : Executor σ) (names : ToolNames) (m : σ)
    (history : List (Command × FileSystem)) (command : Command) (fs : FileSystem) :
    e.memoryAfter names m (history ++ [(command, fs)]) =
      (e.answer (command.invocation names) (e.memoryAfter names m history) fs).2.1 :=
  List.foldl_append

/-- After the same calls the executors make the same changes, with the same success. -/
structure AnswersAlike (names : ToolNames) (e : Executor σ) (m : σ) (e' : Executor τ) (m' : τ) :
    Prop where
  files : ∀ history (command : Command) fs,
    (e'.answer (command.invocation names) (e'.memoryAfter names m' history) fs).2.2 =
      (e.answer (command.invocation names) (e.memoryAfter names m history) fs).2.2
  /-- Whether a signature could be removed does not matter. -/
  succeeded : ∀ history (command : Command) fs, command.isStrip = false →
    (e'.answer (command.invocation names) (e'.memoryAfter names m' history) fs).1.succeeded =
      (e.answer (command.invocation names) (e.memoryAfter names m history) fs).1.succeeded

section

variable {names : ToolNames} {e : Executor σ} {m : σ} {e' : Executor τ} {m' : τ}

variable (names e m e' m') in
/-- The worlds of two runs after the same calls. -/
structure SameHistory (w : World σ) (w' : World τ) : Prop where
  files : w'.files = w.files
  calls : ∃ history : List (Command × FileSystem),
    w.memory = e.memoryAfter names m history ∧ w'.memory = e'.memoryAfter names m' history ∧
      w.commandLines = history.map (·.1.invocation names) ∧
      w'.commandLines = history.map (·.1.invocation names)

theorem SameHistory.quiet {w w₁ : World σ} {w' w₁' : World τ}
    (h : SameHistory names e m e' m' w w') (hquiet : Quiet w w₁) (hquiet' : Quiet w' w₁') :
    SameHistory names e m e' m' w₁ w₁' := by
  rcases h with ⟨hfiles, hcalls⟩
  refine ⟨hquiet'.files.trans (hfiles.trans hquiet.files.symm), ?_⟩
  rwa [hquiet.memory, hquiet'.memory, hquiet.commandLines, hquiet'.commandLines]

/-- One more call on both sides makes the history longer by that call. -/
theorem SameHistory.called (halike : AnswersAlike names e m e' m') {w : World σ} {w' : World τ}
    (h : SameHistory names e m e' m' w w') (command : Command) :
    SameHistory names e m e' m' (((⟨names, e⟩ : Tools σ).run command).run w).2
      (((⟨names, e'⟩ : Tools τ).run command).run w').2 := by
  rcases h with ⟨hfiles, history, hmemory, hmemory', hlines, hlines'⟩
  rcases call_run ⟨names, e⟩ command w with ⟨_, -, hrun⟩
  rcases call_run ⟨names, e'⟩ command w' with ⟨_, -, hrun'⟩
  refine ⟨?_, history ++ [(command, w.files)], ?_, ?_, ?_, ?_⟩
  · rw [hrun, hrun', hmemory, hmemory', hfiles]
    exact halike.files history command w.files
  · rw [hrun, hmemory, Executor.memoryAfter_concat]
  · rw [hrun', hmemory', hfiles, Executor.memoryAfter_concat]
  · rw [commandLines_of_call, hlines, List.map_append]
    rfl
  · rw [commandLines_of_call, hlines', List.map_append]
    rfl

theorem SameHistory.replied (halike : AnswersAlike names e m e' m') {w : World σ} {w' : World τ}
    (h : SameHistory names e m e' m' w w') {command : Command} (hstrip : command.isStrip = false) :
    (((⟨names, e⟩ : Tools σ).run command).run w).1.succeeded =
      (((⟨names, e'⟩ : Tools τ).run command).run w').1.succeeded := by
  rcases h with ⟨hfiles, history, hmemory, hmemory', -, -⟩
  rcases call_run ⟨names, e⟩ command w with ⟨_, -, hrun⟩
  rcases call_run ⟨names, e'⟩ command w' with ⟨_, -, hrun'⟩
  rw [hrun, hrun', hmemory, hmemory', hfiles]
  exact (halike.succeeded history command w.files hstrip).symm

/-- Executors that answer alike keep worlds with the same history alike. -/
def AnswersAlike.likeness (halike : AnswersAlike names e m e' m') :
    Likeness (⟨names, e⟩ : Tools σ) (⟨names, e'⟩ : Tools τ) where
  Holds := SameHistory names e m e' m'
  exact := False
  files h := h.files
  logged record h := h.quiet ⟨rfl, rfl, [record], rfl⟩ ⟨rfl, rfl, [record], rfl⟩
  quiet _ h hquiet hquiet' := h.quiet hquiet hquiet'
  edited _ h := ⟨rfl, h.calls⟩
  called command h := h.called halike command
  replied _ h hstrip := ⟨h.replied halike hstrip, False.elim⟩
  repliedExactly _ _ hexact := hexact.elim

end

/-! ## Runs -/

/--
Runs of one request, among the same files and with executors that answer alike, issue the same
command lines and leave the same files.  Either both succeed, with the same summary, or both fail,
with errors that differ in no more than the words of a call that failed.
-/
theorem runs_alike (around : Surroundings) (names : ToolNames) (request : SignRequest)
    (fs : FileSystem) {e : Executor σ} {m : σ} {e' : Executor τ} {m' : τ}
    (halike : AnswersAlike names e m e' m') :
    let outcome := (signTargetDir around ⟨names, e⟩ request).run.run ⟨fs, m, []⟩
    let outcome' := (signTargetDir around ⟨names, e'⟩ request).run.run ⟨fs, m', []⟩
    outcome'.2.commandLines = outcome.2.commandLines ∧ outcome'.2.files = outcome.2.files ∧
      ((∃ summary, outcome.1 = .ok summary ∧ outcome'.1 = .ok summary) ∨
        ∃ error error', outcome.1 = .error error ∧ outcome'.1 = .error error' ∧
          error'.withoutText = error.withoutText) := by
  intro outcome outcome'
  have hstart : SameHistory names e m e' m' ⟨fs, m, []⟩ ⟨fs, m', []⟩ :=
    ⟨rfl, [], rfl, rfl, rfl, rfl⟩
  have hmatch := halike.likeness.signTargetDir_match around request
  have hends : SameHistory names e m e' m' outcome.2 outcome'.2 ∧
      SameResult False outcome.1 outcome'.1 := hmatch _ _ hstart
  rcases hends with ⟨⟨hfiles, history, -, -, hlines, hlines'⟩, hresult⟩
  refine ⟨hlines'.trans hlines.symm, hfiles, ?_⟩
  revert hresult
  generalize outcome.1 = result
  generalize outcome'.1 = result'
  rintro (summary | ⟨hsame, -⟩)
  · exact .inl ⟨summary, rfl, rfl⟩
  · exact .inr ⟨_, _, rfl, rfl, hsame.symm⟩

/-! ## Other words -/

/-- Answers as another executor does, but passes on its replies in other words. -/
def Executor.reworded (e : Executor σ) (reword : Invocation → Reply → Reply) : Executor σ where
  announce := e.announce
  answer call m fs :=
    let (reply, m, fs) := e.answer call m fs
    (reword call reply, m, fs)

/-- Other words that leave success as it is, but for the removal of signatures, change no more. -/
theorem answersAlike_reworded {names : ToolNames} {reword : Invocation → Reply → Reply}
    (hreword : ∀ command : Command, command.isStrip = false → ∀ reply,
      (reword (command.invocation names) reply).succeeded = reply.succeeded)
    (e : Executor σ) (m : σ) : AnswersAlike names e m (e.reworded reword) m where
  files _ _ _ := rfl
  succeeded _ command _ hstrip := hreword command hstrip _

namespace SmallBoot

/-- No signature can be removed, and every other program complains whatever it comes to. -/
def grumble (call : Invocation) (reply : Reply) : Reply :=
  if call.program = "sudo" ∧ call.arguments.head? = some "sbattach" then
    .notStarted (.toolNotFound "sbattach")
  else if reply.succeeded then .finished ⟨.exited 0, [], Utf8.encode "done, but badly"⟩
  else .finished ⟨.exited 3, [], Utf8.encode "no"⟩

theorem succeeded_grumble (command : Command) (hstrip : command.isStrip = false) (reply : Reply) :
    (grumble (command.invocation {}) reply).succeeded = reply.succeeded := by
  have hother : ¬((command.invocation {}).program = "sudo" ∧
      (command.invocation {}).arguments.head? = some "sbattach") := by
    cases command <;> simp_all [Command.invocation, Command.isStrip]
  rw [grumble, if_neg hother]
  cases reply.succeeded <;> decide

end SmallBoot

/-- A run whose signature is made, and one that cannot remove the old one and is told off. -/
theorem runs_alike_grumbling :
    AnswersAlike {} (SmallBoot.executor 1) 0 ((SmallBoot.executor 1).reworded SmallBoot.grumble) 0 ∧
      let outcome := (signTargetDir SmallBoot.surroundings ⟨{}, SmallBoot.executor 1⟩
        SmallBoot.request).run.run ⟨SmallBoot.files, 0, []⟩
      let outcome' := (signTargetDir SmallBoot.surroundings
        ⟨{}, (SmallBoot.executor 1).reworded SmallBoot.grumble⟩
        SmallBoot.request).run.run ⟨SmallBoot.files, 0, []⟩
      outcome'.2.commandLines = outcome.2.commandLines ∧ outcome'.2.files = outcome.2.files ∧
        ((∃ summary, outcome.1 = .ok summary ∧ outcome'.1 = .ok summary) ∨
          ∃ error error', outcome.1 = .error error ∧ outcome'.1 = .error error' ∧
            error'.withoutText = error.withoutText) := by
  have halike := answersAlike_reworded SmallBoot.succeeded_grumble (SmallBoot.executor 1) 0
  exact ⟨halike, runs_alike SmallBoot.surroundings {} SmallBoot.request SmallBoot.files halike⟩

end BootSigning
