import BootSigning.Log
import BootSigning.Text.Blank
import BootSigning.Text.Occurrence

/-!
# Log directives

Which records are shown: `level`, `target`, or `target=level`, with commas between, and after a
slash a text that a message must contain.

* `Directive`: a level for the targets that start with a name
* `LogFilter.parse`: the reading of directives; what cannot be read is reported and left out
* `LogFilter.shows`: the longest name that fits decides
* `LogRecord.line`: a record as a line
-/

namespace BootSigning

/-- A level for the targets that start with a name; no name means all targets, no level none. -/
structure Directive where
  target : Option String
  level : Option Level
  deriving DecidableEq, Repr

/-- What decides whether a record is shown. -/
structure LogFilter where
  directives : List Directive
  /-- The text that a message must contain. -/
  needle : Option String
  deriving DecidableEq, Repr

namespace LogFilter

/-- A level by its name, in upper or lower case; `off` is no level. -/
def level? (name : String) : Option (Option Level) :=
  let folded := name.map Char.toUpper
  if folded = "OFF" then some none
  else (Level.all.find? (·.name == folded)).map some

/-- Sets the level of a target; a later directive replaces an earlier one for the same target. -/
def put (directives : List Directive) (d : Directive) : List Directive :=
  if directives.any (·.target == d.target) then
    directives.map fun e => if e.target == d.target then d else e
  else directives ++ [d]

/-- What one part of a specification says: a directive, nothing, or a report of what is wrong. -/
def readPart (part : String) : Except String (Option Directive) :=
  match part.splitOn "=" with
  | [""] => .ok none
  | [whole] =>
    match level? whole with
    | some level => .ok (some ⟨none, level⟩)
    | none => .ok (some ⟨some whole, some .trace⟩)
  | [target, name] =>
    let name := Text.trim name
    if name = "" then .ok (some ⟨some target, some .trace⟩)
    else match level? name with
      | some level => .ok (some ⟨some target, level⟩)
      | none => .error s!"invalid logging spec '{name}'"
  | _ => .error s!"invalid logging spec '{part}'"

/-- The directives of parts, with reports on those that cannot be read. -/
def readParts : List String → List Directive → List Directive × List String
  | [], directives => (directives, [])
  | part :: rest, directives =>
    match readPart (Text.trim part) with
    | .ok none => readParts rest directives
    | .ok (some d) => readParts rest (put directives d)
    | .error report =>
      let (directives, reports) := readParts rest directives
      (directives, report :: reports)

def errorsOnly : List Directive := [⟨none, some .error⟩]

/-- The filter that a specification describes, with reports on what cannot be read in it. -/
def parse (specification : String) : LogFilter × List String :=
  let orErrors (directives : List Directive) : List Directive :=
    if directives.isEmpty then errorsOnly else directives
  match specification.splitOn "/" with
  | [parts] =>
    let (directives, reports) := readParts (parts.splitOn ",") []
    (⟨orErrors directives, none⟩, reports)
  | [parts, needle] =>
    let (directives, reports) := readParts (parts.splitOn ",") []
    (⟨orErrors directives, some needle⟩, reports)
  | _ =>
    (⟨errorsOnly, none⟩, [s!"invalid logging spec '{specification}' (too many '/'s)"])

/-- The length of a directive's name. -/
def Directive.reach (d : Directive) : Nat := (d.target.getD "").utf8ByteSize

def Directive.covers (target : String) (d : Directive) : Bool :=
  match d.target with
  | some name => name.toList.isPrefixOf target.toList
  | none => true

/-- Of the directives about a target, the one with the longest name; the last of equals. -/
def decisive? (directives : List Directive) (target : String) : Option Directive :=
  (directives.filter (Directive.covers target)).foldl
    (fun best d =>
      match best with
      | some b => if Directive.reach d < Directive.reach b then some b else some d
      | none => some d)
    none

def shows (f : LogFilter) (r : LogRecord) : Bool :=
  match decisive? f.directives r.component.target with
  | some ⟨_, some level⟩ =>
    decide (r.level.rank ≤ level.rank) &&
      (match f.needle with
        | some needle => Text.occursIn needle r.message
        | none => true)
  | _ => false

end LogFilter

/-- The name of a level, filled up with blanks to the longest. -/
def Level.paddedName (level : Level) : String :=
  level.name ++ String.ofList (List.replicate (5 - level.name.length) ' ')

/-- A record as a line; the lines of a message after its first are indented. -/
def LogRecord.line (r : LogRecord) : String :=
  let shown := r.message.toList.flatMap fun c => if c = '\n' then "\n    ".toList else [c]
  s!"[{r.level.paddedName}] {String.ofList shown}\n"

end BootSigning
