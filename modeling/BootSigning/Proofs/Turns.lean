import BootSigning.Rehearsal.Recording

/-!
# Turns — what working through a boot directory consists of

The artifacts of a boot directory are taken in turns.  A turn comes down to calls of operations,
each with its answer:

* `Turn`, `Deed`: an artifact whose turn it is, and one call of an operation with its answer;
* `Taken`: the deeds that turns can come to, with the summary or the error at their end;
* `callsOf`: the calls that turns ask for, given the verdicts on the candidates among them.

`Taken.calls` says that the calls made are those asked for, cut off after the first failure.
-/

namespace BootSigning

/-! ## Turns and deeds -/

/-- An artifact whose turn it is: to be signed, or to be treated as a candidate. -/
inductive Turn where
  | sign (artifact : Artifact)
  | treat (artifact : Artifact)
  deriving DecidableEq, Repr

def Turn.artifact : Turn → Artifact
  | .sign a | .treat a => a

/-- One call of an operation with its answer. -/
inductive Deed where
  | classified (artifact : Path) (verdict : Bool)
  | injected (artifact : Path) (result : Except SignError Unit)
  | signed (artifact : Path) (result : Except SignError Outcome)

/-- The error that a result is. -/
def errorOf {α : Type} : Except SignError α → Option SignError
  | .ok _ => none
  | .error e => some e

namespace Deed

def call : Deed → OpCall
  | .classified p _ => .classify p
  | .injected p _ => .inject p
  | .signed p _ => .sign p

def artifact (deed : Deed) : Path := deed.call.artifact

/-- The error that was answered, if any; a verdict is none. -/
def error? : Deed → Option SignError
  | .classified _ _ => none
  | .injected _ result => errorOf result
  | .signed _ result => errorOf result

def failed (deed : Deed) : Bool := deed.error?.isSome

def verdict? : Deed → Option Bool
  | .classified _ verdict => some verdict
  | _ => none

end Deed

/-- The verdicts among deeds, in order. -/
def verdictsOf (deeds : List Deed) : List Bool := deeds.filterMap Deed.verdict?

/-- The first error among deeds. -/
def firstError (deeds : List Deed) : Option SignError := deeds.findSome? Deed.error?

/-! ## Taking turns -/

open Orchestration in
/-- What turns come to: their deeds, and the summary or the error at the end. -/
inductive Taken : List Turn → Summary → List Deed → Except SignError Summary → Prop where
  | done (s : Summary) : Taken [] s [] (.ok s)
  | signed {a : Artifact} {outcome : Outcome} {turns : List Turn} {s : Summary}
      {deeds : List Deed} {r : Except SignError Summary}
      (hrest : Taken turns (note s a outcome) deeds r) :
      Taken (.sign a :: turns) s (.signed a.path (.ok outcome) :: deeds) r
  | notSigned (a : Artifact) (e : SignError) (turns : List Turn) (s : Summary) :
      Taken (.sign a :: turns) s [.signed a.path (.error e)] (.error e)
  | other {a : Artifact} {turns : List Turn} {s : Summary} {deeds : List Deed}
      {r : Except SignError Summary} (hrest : Taken turns s deeds r) :
      Taken (.treat a :: turns) s (.classified a.path false :: deeds) r
  | notInjected (a : Artifact) (e : SignError) (turns : List Turn) (s : Summary) :
      Taken (.treat a :: turns) s [.classified a.path true, .injected a.path (.error e)] (.error e)
  | treated {a : Artifact} {turns : List Turn} {s : Summary} {deeds : List Deed}
      {r : Except SignError Summary}
      (hrest : Taken (.sign a :: turns) { s with injected := s.injected ++ [a] } deeds r) :
      Taken (.treat a :: turns) s (.classified a.path true :: .injected a.path (.ok ()) :: deeds) r

namespace Taken

variable {turns more : List Turn} {s s' : Summary} {deeds deeds' : List Deed}
  {r : Except SignError Summary} {e : SignError}

theorem append (h : Taken turns s deeds (.ok s')) (h' : Taken more s' deeds' r) :
    Taken (turns ++ more) s (deeds ++ deeds') r := by
  generalize hr : (Except.ok s' : Except SignError Summary) = first at h
  induction h with
  | done s =>
    cases hr
    exact h'
  | signed _ ih => exact .signed (ih hr)
  | notSigned => cases hr
  | other _ ih => exact .other (ih hr)
  | notInjected => cases hr
  | treated _ ih => exact .treated (ih hr)

/-- After an error no turn that is still to come matters. -/
theorem cut (h : Taken turns s deeds (.error e)) : Taken (turns ++ more) s deeds (.error e) := by
  generalize hr : (Except.error e : Except SignError Summary) = r at h ⊢
  induction h with
  | done => cases hr
  | signed _ ih => exact .signed (ih hr)
  | notSigned => exact .notSigned _ _ _ _
  | other _ ih => exact .other (ih hr)
  | notInjected => exact .notInjected _ _ _ _
  | treated _ ih => exact .treated (ih hr)

/-- The error at the end is the first that was answered. -/
theorem errorOf_eq (h : Taken turns s deeds r) : errorOf r = firstError deeds := by
  induction h with
  | done | notSigned | notInjected => rfl
  | signed _ ih | other _ ih | treated _ ih => exact ih

/-- Whatever is done is done to an artifact whose turn it is. -/
theorem artifacts_subset (h : Taken turns s deeds r) :
    deeds.map Deed.artifact ⊆ turns.map fun turn => turn.artifact.path := by
  induction h with
  | done => exact List.nil_subset _
  | signed _ ih | other _ ih => exact List.cons_subset_cons _ ih
  | notSigned => exact List.cons_subset_cons _ (List.nil_subset _)
  | notInjected =>
    refine List.cons_subset.2 ⟨List.mem_cons_self, ?_⟩
    exact List.cons_subset.2 ⟨List.mem_cons_self, List.nil_subset _⟩
  | treated _ ih =>
    -- the turn of a candidate and its turn to be signed have the same path
    refine List.cons_subset.2 ⟨List.mem_cons_self, ?_⟩
    exact List.cons_subset.2 ⟨List.mem_cons_self, ih⟩

end Taken

/-! ## The calls that turns ask for -/

/--
The calls that turns ask for.  Each candidate takes the next verdict; it is given a new key and
signed exactly if that is yes.
-/
def callsOf : List Turn → List Bool → List OpCall
  | [], _ => []
  | .sign a :: turns, verdicts => .sign a.path :: callsOf turns verdicts
  | .treat a :: turns, true :: verdicts =>
    .classify a.path :: .inject a.path :: .sign a.path :: callsOf turns verdicts
  | .treat a :: turns, false :: verdicts => .classify a.path :: callsOf turns verdicts
  | .treat a :: turns, [] => .classify a.path :: callsOf turns []

theorem take_cons_of_not_failed (deed : Deed) (h : deed.failed = false) (deeds : List Deed)
    (call : OpCall) (calls : List OpCall) :
    (call :: calls).take ((deed :: deeds).findIdx Deed.failed + 1) =
      call :: calls.take (deeds.findIdx Deed.failed + 1) := by
  rw [List.findIdx_cons, h, List.take_succ_cons]
  rfl

/-- The calls made are those asked for, cut off after the first failure. -/
theorem Taken.calls {turns : List Turn} {s : Summary} {deeds : List Deed}
    {r : Except SignError Summary} (h : Taken turns s deeds r) :
    deeds.map Deed.call =
      (callsOf turns (verdictsOf deeds)).take (deeds.findIdx Deed.failed + 1) := by
  induction h with
  | done | notSigned | notInjected => rfl
  | @signed a outcome turns _ deeds _ _ ih =>
    have hcut := take_cons_of_not_failed (.signed a.path (.ok outcome)) rfl deeds
      (.sign a.path) (callsOf turns (verdictsOf deeds))
    calc (Deed.signed a.path (.ok outcome) :: deeds).map Deed.call
        = .sign a.path :: deeds.map Deed.call := rfl
      _ = .sign a.path ::
            (callsOf turns (verdictsOf deeds)).take (deeds.findIdx Deed.failed + 1) := by rw [ih]
      _ = _ := hcut.symm
  | @other a turns _ deeds _ _ ih =>
    have hcut := take_cons_of_not_failed (.classified a.path false) rfl deeds
      (.classify a.path) (callsOf turns (verdictsOf deeds))
    calc (Deed.classified a.path false :: deeds).map Deed.call
        = .classify a.path :: deeds.map Deed.call := rfl
      _ = .classify a.path ::
            (callsOf turns (verdictsOf deeds)).take (deeds.findIdx Deed.failed + 1) := by rw [ih]
      _ = _ := hcut.symm
  | @treated a turns _ deeds _ _ ih =>
    -- two deeds at once: neither failed, so the cut lies among those that follow
    have hinjected := take_cons_of_not_failed (.injected a.path (.ok ())) rfl deeds
      (.inject a.path) (callsOf (.sign a :: turns) (verdictsOf deeds))
    have hclassified := take_cons_of_not_failed (.classified a.path true) rfl
      (.injected a.path (.ok ()) :: deeds) (.classify a.path)
      (.inject a.path :: callsOf (.sign a :: turns) (verdictsOf deeds))
    calc (Deed.classified a.path true :: .injected a.path (.ok ()) :: deeds).map Deed.call
        = .classify a.path :: .inject a.path :: deeds.map Deed.call := rfl
      _ = .classify a.path :: .inject a.path ::
            (callsOf (.sign a :: turns) (verdictsOf deeds)).take
              (deeds.findIdx Deed.failed + 1) := by rw [ih]
      _ = .classify a.path :: (.inject a.path ::
            callsOf (.sign a :: turns) (verdictsOf deeds)).take
              ((Deed.injected a.path (.ok ()) :: deeds).findIdx Deed.failed + 1) := by
        rw [hinjected]
      _ = _ := hclassified.symm

/-- Without a failure, turns ask for as many calls as were made, whatever comes after them. -/
theorem Taken.length_calls {turns : List Turn} {s s' : Summary} {deeds : List Deed}
    (h : Taken turns s deeds (.ok s')) (more : List Deed) :
    (callsOf turns (verdictsOf (deeds ++ more))).length = deeds.length := by
  -- the turns take their verdicts from `deeds` and leave those of `more`
  generalize hr : (Except.ok s' : Except SignError Summary) = r at h
  induction h with
  | done => rfl
  | signed _ ih | other _ ih => exact congrArg (· + 1) (ih hr)
  | notSigned | notInjected => cases hr
  | treated _ ih => exact congrArg (· + 2) (ih hr)

/-- Without a failure, all calls asked for were made. -/
theorem Taken.all_calls {turns : List Turn} {s s' : Summary} {deeds : List Deed}
    (h : Taken turns s deeds (.ok s')) :
    deeds.map Deed.call = callsOf turns (verdictsOf deeds) := by
  have hasked : (callsOf turns (verdictsOf deeds)).length = deeds.length := by
    simpa using h.length_calls []
  have hmade : deeds.length =
      min (deeds.findIdx Deed.failed + 1) (callsOf turns (verdictsOf deeds)).length := by
    simpa using congrArg List.length h.calls
  rw [h.calls, List.take_of_length_le]
  omega

end BootSigning
