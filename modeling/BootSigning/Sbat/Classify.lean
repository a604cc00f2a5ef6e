import BootSigning.Artifact
import BootSigning.Sbat.Table
import BootSigning.Tools

/-!
# Classifying bootloaders

A bootloader is a crdyboot build if its SBAT section says so.

* `extract`, `settle`: the section of an artifact, as a file in the workspace
* `isCrdyboot`, `conclude`, `judge`: the verdict; whatever cannot be read means no
-/

namespace BootSigning.Sbat

variable {σ : Type}

def sectionName : String := ".sbat"

/-- The file in the workspace that the section is extracted to. -/
def fileIn (workspace : Path) : Path := workspace / ("sbat.csv" : Path)

/-- The file that the extracting tool writes besides. -/
def scratchIn (workspace : Path) (name : Name) : Path :=
  workspace / (⟨name ++ Utf8.encode ".tmp"⟩ : Path)

/-- The file of the table, once the tool answered. -/
def settle (artifact table : Path) (reply : Reply) : Attempt σ Path := do
  if !reply.succeeded then
    log .debug .sbat s!"no {sectionName} section in {artifact}"
    -- there is a table to read either way, and it is not that of an earlier artifact
    change (·.write table [])
  return table

/-- Extracts the section of an artifact to the workspace. -/
def extract (tools : Tools σ) (workspace artifact : Path) : Attempt σ Path := do
  let table := fileIn workspace
  let scratch := scratchIn workspace (← fileName artifact)
  settle artifact table (← tools.run (.dumpSection artifact sectionName table scratch))

/-- The verdict on an artifact whose section is in a file. -/
def judge (artifact table : Path) : Action σ Bool := do
  match (← files).readText table with
  | .error fault =>
    log .debug .sbat s!"unreadable SBAT data for {artifact}: {fault.message}"
    return false
  | .ok text =>
    let verdict := (Table.parse text).isCrdyboot
    log .debug .sbat s!"{artifact} crdyboot: {verdict}"
    return verdict

def conclude (artifact : Path) : Except SignError Path → Action σ Bool
  | .ok table => judge artifact table
  | .error e => do
    log .warn .sbat s!"cannot read {sectionName} of {artifact}: {e.message}"
    return false

def isCrdyboot (tools : Tools σ) (workspace artifact : Path) : Action σ Bool := do
  conclude artifact (← (extract tools workspace artifact).run)

end BootSigning.Sbat
