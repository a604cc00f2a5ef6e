import BootSigning.Shell.State
import BootSigning.Shell.Wildcard

/-!
# Expanding words

* `State.parameter?`: the value of a parameter
* `expandText`: a word as one text
* `expandFields`: a word as the fields it falls into
* `expandPattern`: a word as a pattern
-/

namespace BootSigning.Shell

def ownProcess : Nat := 4242

def joined (texts : List (List Char)) : List Char := [' '].intercalate texts

namespace State

/-- The value of a parameter, if it has one. -/
def parameter? (s : State) (name : String) : Option (List Char) :=
  match name with
  | "@" | "*" => if s.arguments.isEmpty then none else some (joined s.arguments)
  | "#" => some (toString s.arguments.length).toList
  | "?" => some (toString s.status).toList
  | "$" => some (toString ownProcess).toList
  | "!" | "-" => none
  | name =>
    match name.toNat? with
    | some 0 => some s.name
    | some n => s.arguments[n - 1]?
    | none => s.value? name

/-- The value of a parameter, empty if it has none. -/
def parameter (s : State) (name : String) : List Char := (s.parameter? name).getD []

def atom (s : State) : Atom → List MaybeQuoted
  | .char c quoted => [⟨c, quoted⟩]
  | .parameter name quoted => (s.parameter name).map (⟨·, quoted⟩)

def edited (s : State) (name : String) (edit : Edit) (operand : List Atom) (quoted : Bool) :
    List MaybeQuoted :=
  let value := s.parameter name
  let word := operand.flatMap s.atom
  let mark (cs : List Char) : List MaybeQuoted := cs.map (⟨·, quoted⟩)
  let isThere (emptyCounts : Bool) : Bool :=
    if emptyCounts then !value.isEmpty else (s.parameter? name).isSome
  match edit with
  | .dropFront longest => mark (Wildcard.dropFront (Wildcard.compile word) longest value)
  | .dropBack longest => mark (Wildcard.dropBack (Wildcard.compile word) longest value)
  | .standIn emptyCounts => if isThere emptyCounts then mark value else word
  | .replacement emptyCounts => if isThere emptyCounts then word else []
  | .length => mark (toString value.length).toList

end State

inductive Mark where
  | char (c : MaybeQuoted)
  /-- A field ends and another starts. -/
  | cut
  /-- A field is here, if only an empty one. -/
  | field
  deriving DecidableEq, Repr

def marks (s : State) : Piece → List Mark
  | .quotes => [.field]
  | .atom (.parameter "@" true) =>
    [Mark.cut].intercalate (s.arguments.map fun a => .field :: a.map (.char ⟨·, true⟩))
  | .atom a => (s.atom a).map .char
  | .edited name edit operand quoted => (s.edited name edit operand quoted).map .char

def endField (fields : List (List Char)) : Option (List Char) → List (List Char)
  | some field => fields ++ [field]
  | none => fields

/-- The fields that marks fall into; blanks without quotes separate them. -/
def fieldsOf : List (List Char) → Option (List Char) → List Mark → List (List Char)
  | fields, current, [] => endField fields current
  | fields, current, mark :: rest =>
    match mark with
    | .cut => fieldsOf (endField fields current) none rest
    | .field => fieldsOf fields (some (current.getD [])) rest
    | .char m =>
      if !m.quoted && [' ', '\t', '\n'].contains m.char then
        fieldsOf (endField fields current) none rest
      else fieldsOf fields (some (current.getD [] ++ [m.char])) rest

/-- The fields of a word. All arguments in quotes are no field if there are no arguments. -/
def expandFields (s : State) (w : Word) : List (List Char) :=
  if s.arguments.isEmpty && w == [.quotes, .atom (.parameter "@" true)] then []
  else fieldsOf [] none (w.flatMap (marks s))

def expandChars (s : State) (w : Word) : List MaybeQuoted :=
  w.flatMap fun piece =>
    match piece with
    | .quotes => []
    | .atom a => s.atom a
    | .edited name edit operand quoted => s.edited name edit operand quoted

def expandText (s : State) (w : Word) : List Char := (expandChars s w).map (·.char)

def expandPattern (s : State) (w : Word) : List Wildcard := Wildcard.compile (expandChars s w)

end BootSigning.Shell
