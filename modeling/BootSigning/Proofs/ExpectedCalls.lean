import BootSigning.Proofs.TwoRuns
import BootSigning.Rehearsal.Expectations

/-!
# ExpectedCalls — what it takes to meet all expectations

An executor that answers expected calls compares what it receives with what comes next, and uses up
one expectation for each call, whether it fits or not.  So the answer to a call depends on its
position alone, and one deviation is never made good by another.

* `Answered`: the answer that a call gets, given the expectation at its position;
* `receiveAll_remaining`, `receiveAll_deviations`: what calls leave, and when nothing deviates;
* `memoryAfter_executor`: a history of commands is received call by call.

`expectations_exact` puts this together, for calls in any order and for whole runs.
-/

namespace BootSigning

/-- The answer to a call, by what is expected in its place. -/
inductive Answered (call : Invocation) : Option Expectation → Reply → Prop where
  | fitting {next : Expectation} (hprogram : next.call.program = call.program)
      (harguments : next.call.arguments = call.arguments) : Answered call (some next) next.reply
  | other {next : Expectation}
      (hother : ¬(next.call.program = call.program ∧ next.call.arguments = call.arguments)) :
      Answered call (some next) (.notStarted
        (.stubMismatch s!"expected `{next.call.line}`, received `{call.line}`"))
  | surplus : Answered call none
      (.notStarted (.stubMismatch s!"unexpected invocation: {call.line}"))

theorem Invocation.eq_iff {i j : Invocation} :
    i = j ↔ i.program = j.program ∧ i.arguments = j.arguments := by
  cases i
  cases j
  simp

/-- An expected reply that is no complaint is given only to the expected call. -/
theorem Answered.reply_eq_iff {call : Invocation} {next : Expectation} {reply : Reply}
    (h : Answered call (some next) reply)
    (hreply : ∀ message, next.reply ≠ .notStarted (.stubMismatch message)) :
    reply = next.reply ↔ next.call.program = call.program ∧
      next.call.arguments = call.arguments := by
  cases h with
  | fitting hprogram harguments => exact iff_of_true rfl ⟨hprogram, harguments⟩
  | other hother => exact iff_of_false (fun h => hreply _ h.symm) hother

namespace Expectations

/-! ## One call -/

section

variable (e : Expectations) (call : Invocation)

theorem receive_answered : Answered call e.remaining.head? (e.receive call).1 := by
  rcases e with ⟨_ | ⟨next, rest⟩, deviations⟩
  · exact .surplus
  · rw [receive]
    dsimp only [List.head?_cons]
    split
    · rename_i hfits
      exact .fitting (congrArg _ hfits) (congrArg _ hfits)
    · rename_i hother
      exact .other fun h => hother (Invocation.eq_iff.2 h)

theorem receive_remaining : (e.receive call).2.remaining = e.remaining.tail := by
  rcases e with ⟨_ | ⟨next, rest⟩, deviations⟩
  · rfl
  · rw [receive]
    dsimp only
    split <;> rfl

/-- A call deviates unless it is the one that is expected next. -/
theorem receive_deviations :
    (e.receive call).2.deviations = [] ↔
      e.deviations = [] ∧ e.remaining.head?.map (·.call) = some call := by
  rcases e with ⟨_ | ⟨next, rest⟩, deviations⟩
  · simp [receive, deviate]
  · rw [receive]
    dsimp only
    split <;> simp_all [deviate]

end

/-! ## Calls in a row -/

section

variable (e : Expectations) (calls : List Invocation)

theorem receiveAll_cons (call : Invocation) :
    e.receiveAll (call :: calls) = ((e.receive call).1 :: ((e.receive call).2.receiveAll calls).1,
      ((e.receive call).2.receiveAll calls).2) := rfl

theorem receiveAll_length : (e.receiveAll calls).1.length = calls.length := by
  induction calls generalizing e with
  | nil => rfl
  | cons call calls ih =>
    rw [receiveAll_cons, List.length_cons, ih, List.length_cons]

/-- Each call is answered by its own position, whatever the others are. -/
theorem receiveAll_answered {k : Nat} {call : Invocation} (hcall : calls[k]? = some call) :
    ∃ reply, (e.receiveAll calls).1[k]? = some reply ∧ Answered call e.remaining[k]? reply := by
  induction calls generalizing e k with
  | nil => cases hcall
  | cons earlier calls ih =>
    rw [receiveAll_cons]
    cases k with
    | zero =>
      cases hcall
      refine ⟨_, rfl, ?_⟩
      rw [← List.head?_eq_getElem?]
      exact e.receive_answered _
    | succ k =>
      -- the earlier call took its expectation with it, so both lists lose their first
      rcases ih (e.receive earlier).2 hcall with ⟨reply, hreply, hanswered⟩
      rw [receive_remaining, List.getElem?_tail] at hanswered
      exact ⟨reply, hreply, hanswered⟩

/-- Every call uses up one expectation. -/
theorem receiveAll_remaining :
    (e.receiveAll calls).2.remaining = e.remaining.drop calls.length := by
  induction calls generalizing e with
  | nil => rfl
  | cons call calls ih =>
    rw [receiveAll_cons, ih, receive_remaining, List.drop_tail, List.length_cons]

/-- Nothing deviates if the calls are the first of those that were expected. -/
theorem receiveAll_deviations :
    (e.receiveAll calls).2.deviations = [] ↔
      e.deviations = [] ∧ calls <+: e.remaining.map (·.call) := by
  induction calls generalizing e with
  | nil => simp [receiveAll]
  | cons call calls ih =>
    rw [receiveAll_cons, ih, receive_deviations, receive_remaining, and_assoc]
    refine and_congr_right fun _ => ?_
    cases e.remaining with
    | nil => simp
    | cons next rest => simp [List.cons_prefix_cons, eq_comm]

end

/-! ## The verdict -/

theorem verdict_eq_ok_iff {e : Expectations} :
    e.verdict = .ok () ↔ e.deviations = [] ∧ e.remaining = [] := by
  rw [verdict]
  split
  · simp_all
  · split <;> simp_all

theorem verdict_receiveAll_iff (expected : List Expectation) (calls : List Invocation) :
    ((ofList expected).receiveAll calls).2.verdict = .ok () ↔
      calls = expected.map (·.call) := by
  rw [verdict_eq_ok_iff, receiveAll_deviations, receiveAll_remaining, List.drop_eq_nil_iff]
  constructor
  · -- nothing deviated, and nothing is left that could make the calls too few
    rintro ⟨⟨-, hprefix⟩, hlength⟩
    exact hprefix.eq_of_length_le (by rwa [List.length_map])
  · rintro rfl
    exact ⟨⟨rfl, List.prefix_rfl⟩, Nat.le_of_eq (List.length_map _).symm⟩

/-! ## Runs -/

/-- A history of commands is received call by call. -/
theorem memoryAfter_executor (names : ToolNames) (e : Expectations)
    (history : List (Command × FileSystem)) :
    executor.memoryAfter names e history =
      (e.receiveAll (history.map (·.1.invocation names))).2 := by
  induction history generalizing e with
  | nil => rfl
  | cons call history ih => exact ih (e.receive (call.1.invocation names)).2

/-- After a run the expectations have received its command lines. -/
theorem signTargetDir_receives (around : Surroundings) (names : ToolNames) (request : SignRequest)
    (fs : FileSystem) (e : Expectations) :
    let ended := ((signTargetDir around ⟨names, executor⟩ request).run.run ⟨fs, e, []⟩).2
    ended.memory = (e.receiveAll ended.commandLines).2 := by
  intro ended
  -- a run is followed call by call as one of two runs that are the same
  have halike : AnswersAlike names executor e executor e := ⟨fun _ _ _ => rfl, fun _ _ _ _ => rfl⟩
  have hsame : SameHistory names executor e executor e ended ended :=
    (halike.likeness.signTargetDir_match around request _ _ ⟨rfl, [], rfl, rfl, rfl, rfl⟩).1
  rcases hsame.calls with ⟨history, hmemory, -, hlines, -⟩
  rw [hmemory, hlines, memoryAfter_executor]

end Expectations

/--
Calls are answered one by one, each by what is expected in its place: with the expected reply if
the program and all arguments are the expected ones, and with a complaint if not.  Nothing is
wrong at the end if and only if the calls are the expected ones, no more and no fewer and in the
same order.  This goes for the calls of a run too, which passes over some of the errors it gets.
-/
theorem expectations_exact (expected : List Expectation) :
    (∀ calls : List Invocation,
      let received := (Expectations.ofList expected).receiveAll calls
      received.1.length = calls.length ∧
        (∀ (k : Nat) (call : Invocation), calls[k]? = some call →
          ∃ reply, received.1[k]? = some reply ∧ Answered call expected[k]? reply ∧
            ∀ next : Expectation, expected[k]? = some next →
              (∀ message, next.reply ≠ .notStarted (.stubMismatch message)) →
              (reply = next.reply ↔ next.call.program = call.program ∧
                next.call.arguments = call.arguments)) ∧
        (received.2.verdict = .ok () ↔ calls = expected.map (·.call))) ∧
      ∀ (around : Surroundings) (names : ToolNames) (request : SignRequest) (fs : FileSystem),
        let ended := ((signTargetDir around ⟨names, Expectations.executor⟩ request).run.run
          ⟨fs, Expectations.ofList expected, []⟩).2
        ended.memory.verdict = .ok () ↔ ended.commandLines = expected.map (·.call) := by
  constructor
  · intro calls received
    refine ⟨Expectations.receiveAll_length _ calls, fun k call hcall => ?_,
      Expectations.verdict_receiveAll_iff expected calls⟩
    rcases (Expectations.ofList expected).receiveAll_answered calls hcall with
      ⟨reply, hreply, hanswered⟩
    exact ⟨reply, hreply, hanswered, fun next hnext => Answered.reply_eq_iff (hnext ▸ hanswered)⟩
  · intro around names request fs ended
    have hreceived : ended.memory =
        ((Expectations.ofList expected).receiveAll ended.commandLines).2 :=
      Expectations.signTargetDir_receives around names request fs (.ofList expected)
    rw [hreceived]
    exact Expectations.verdict_receiveAll_iff expected ended.commandLines

namespace SmallBoot

def success : Reply := .finished ⟨.exited 0, [], []⟩

/-- Does nothing and reports success. -/
def obliging : Executor Unit := ⟨fun _ => [], fun _ () fs => (success, (), fs)⟩

/-- What a run calls if every call succeeds, as expectations. -/
def expected : List Expectation :=
  ((signTargetDir surroundings ⟨{}, obliging⟩ request).run.run ⟨files, (), []⟩).2.commandLines.map
    (⟨·, success⟩)

end SmallBoot

/-- An argument with a blank is not two arguments, and a run can meet what is expected of it. -/
theorem expectations_exact_small :
    let whole : Invocation := ⟨"sudo", ["cp", "my key", "/boot"]⟩
    let parted : Invocation := ⟨"sudo", ["cp", "my", "key", "/boot"]⟩
    let wanted : List Expectation := [⟨whole, SmallBoot.success⟩, ⟨whole, SmallBoot.success⟩]
    let received := (Expectations.ofList wanted).receiveAll [parted, whole]
    (whole.line = parted.line ∧ received.1[1]? = some SmallBoot.success ∧
        ¬received.2.verdict = .ok ()) ∧
      let ended := ((signTargetDir SmallBoot.surroundings ⟨{}, Expectations.executor⟩
        SmallBoot.request).run.run
          ⟨SmallBoot.files, Expectations.ofList SmallBoot.expected, []⟩).2
      SmallBoot.expected.length = 5 ∧ ended.memory.verdict = .ok () := by
  intro whole parted wanted received
  rcases (expectations_exact wanted).1 [parted, whole] with ⟨-, hanswers, hverdict⟩
  have hruns := (expectations_exact SmallBoot.expected).2 SmallBoot.surroundings {}
    SmallBoot.request SmallBoot.files
  refine ⟨⟨by decide +kernel, ?_, fun hok => ?_⟩, by decide +kernel, hruns.2 (by decide +kernel)⟩
  · rcases hanswers 1 whole rfl with ⟨reply, hreply, -, hfits⟩
    rw [hreply, (hfits ⟨whole, SmallBoot.success⟩ rfl nofun).2 ⟨rfl, rfl⟩]
  · exact absurd (hverdict.1 hok) (by decide)

end BootSigning
