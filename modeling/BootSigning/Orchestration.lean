import BootSigning.BootLayout
import BootSigning.Plan
import BootSigning.Signing

/-!
# Working through a boot directory

The order in which the artifacts of a boot directory are classified, given a new key and signed,
whatever does that work.

* `ArtifactOps`: the three operations on an artifact
* `Orchestration.signAll`, `Orchestration.treatCandidates`: one group of artifacts
* `Orchestration.run`: all groups, as a plan says
-/

namespace BootSigning

structure ArtifactOps (σ : Type) where
  /-- The artifact is a crdyboot build. -/
  classify : Path → Action σ Bool
  /-- Puts a new kernel key into it. -/
  inject : Path → Attempt σ Unit
  /-- Signs it. -/
  sign : Path → Attempt σ Outcome

namespace Orchestration

variable {σ : Type}

def note (summary : Summary) (artifact : Artifact) : Outcome → Summary
  | .signed => { summary with signed := summary.signed ++ [artifact] }
  | .skipped => { summary with skipped := summary.skipped ++ [artifact] }

def signOne (ops : ArtifactOps σ) (summary : Summary) (artifact : Artifact) :
    Attempt σ Summary := do
  log .debug .pipeline s!"{artifact.group.text} {artifact.path}"
  return note summary artifact (← ops.sign artifact.path)

def signAll (ops : ArtifactOps σ) : Summary → List Artifact → Attempt σ Summary
  | summary, [] => return summary
  | summary, artifact :: rest => do
    let summary ← signOne ops summary artifact
    signAll ops summary rest

/-- Gives an artifact a new key and signs it, if it is a crdyboot build. -/
def treatCandidate (ops : ArtifactOps σ) (summary : Summary) (artifact : Artifact) :
    Attempt σ Summary := do
  if ← ops.classify artifact.path then
    -- a new key breaks the signature, so both belong together
    ops.inject artifact.path
    signOne ops { summary with injected := summary.injected ++ [artifact] } artifact
  else
    log .debug .pipeline s!"{artifact.path} is not crdyboot"
    return summary

def treatCandidates (ops : ArtifactOps σ) : Summary → List Artifact → Attempt σ Summary
  | summary, [] => return summary
  | summary, artifact :: rest => do
    let summary ← treatCandidate ops summary artifact
    treatCandidates ops summary rest

/-- Treats every artifact of a boot directory, group after group. -/
def run (layout : BootLayout) (plan : SigningPlan) (ops : ArtifactOps σ) :
    Attempt σ Summary := do
  -- each group is looked for when its turn comes, so what was changed before it counts
  let summary ← signAll ops .empty (← layout.bootloaders plan.bootloaders)
  let candidates ← (layout.crdybootCandidates plan.candidates : Action σ _)
  let summary ← treatCandidates ops summary candidates
  let summary ← signAll ops summary (← layout.syslinuxKernels plan.syslinuxKernels)
  let kernel ← (layout.rootKernel? : Action σ _)
  let summary ← signAll ops summary kernel.toList
  log .info .pipeline summary.describe
  return summary

end Orchestration

end BootSigning
