/-!
# Glob patterns

The language of patterns: `?` for one character, `*` for any run of them, `[..]` and `[!..]` for
one character in or not in a set, and `**` as a whole path component for any directories.

* `Token`: the parts of a pattern
* `Flaw`, `PatternFault`: what can be wrong with one
* `compile`: the tokens of a pattern
* `accepts`: a name matches tokens, decided in one pass
* `escape`: a text as a pattern that only it matches
-/

namespace BootSigning.Glob

/-! ## Tokens -/

inductive Member where
  | one (c : Char)
  | span (first last : Char)
  deriving DecidableEq, Repr

inductive Token where
  | char (c : Char)
  /-- `?` -/
  | any
  /-- `*` -/
  | run
  /-- `**` -/
  | tree
  /-- `[..]` -/
  | within (members : List Member)
  /-- `[!..]` -/
  | without (members : List Member)
  deriving DecidableEq, Repr

def Member.holds (c : Char) : Member → Bool
  | .one a => c == a
  | .span first last => decide (first ≤ c) && decide (c ≤ last)

def members : List Char → List Member
  -- a dash between two characters; one at either end of a set stands for itself
  | first :: '-' :: last :: rest => .span first last :: members rest
  | c :: rest => .one c :: members rest
  | [] => []

/-! ## Faults -/

inductive Flaw where
  /-- Three or more stars in a row. -/
  | tooManyStars
  /-- Two stars that are not a whole path component. -/
  | partialComponent
  /-- A bracket without its partner. -/
  | openSet
  deriving DecidableEq, Repr

/-- A flaw and the place of the character that shows it, counted from zero. -/
structure PatternFault where
  position : Nat
  flaw : Flaw
  deriving DecidableEq, Repr

def Flaw.message : Flaw → String
  | .tooManyStars => "wildcards are either regular `*` or recursive `**`"
  | .partialComponent => "recursive wildcards must form a single path component"
  | .openSet => "invalid range pattern"

def PatternFault.message (f : PatternFault) : String :=
  s!"Pattern syntax error near position {f.position}: {f.flaw.message}"

/-! ## Reading a pattern -/

/-- What the reader is in the middle of. -/
inductive Reading where
  /-- Between two tokens. -/
  | between
  /-- After some stars; `fresh` if they start a path component. -/
  | stars (count : Nat) (fresh : Bool)
  /-- After the `[` at a position. -/
  | bracket (opened : Nat)
  /-- After `[!`, or in a set that already has a member; the members in reverse. -/
  | set (opened : Nat) (negated : Bool) (reversed : List Char)
  deriving DecidableEq, Repr

structure Reader where
  /-- How many characters were read. -/
  position : Nat
  /-- The next character starts a path component. -/
  fresh : Bool
  /-- The tokens so far, the last one first. -/
  tokens : List Token
  reading : Reading
  deriving DecidableEq, Repr

def Reader.start : Reader := ⟨0, true, [], .between⟩

/-- One more character read, with what that led to. -/
def Reader.advance (r : Reader) (fresh : Bool) (tokens : List Token) (reading : Reading) : Reader :=
  ⟨r.position + 1, fresh, tokens, reading⟩

def Reader.begin (r : Reader) (c : Char) : Reader :=
  if c = '?' then r.advance false (.any :: r.tokens) .between
  else if c = '*' then r.advance r.fresh r.tokens (.stars 1 r.fresh)
  else if c = '[' then r.advance false r.tokens (.bracket r.position)
  else r.advance (c == '/') (.char c :: r.tokens) .between

/-- The token of `count` stars that end before the character `next`. -/
def starToken (position count : Nat) (fresh : Bool) (next : Option Char) :
    Except PatternFault Token :=
  match count with
  | 0 | 1 => .ok .run
  | 2 =>
    -- alone between slashes, or at an end of the pattern
    if !fresh then .error ⟨position - 3, .partialComponent⟩
    else match next with
      | none | some '/' => .ok .tree
      | some _ => .error ⟨position, .partialComponent⟩
  | _ => .error ⟨position - count + 2, .tooManyStars⟩

def setToken (negated : Bool) (reversed : List Char) : Token :=
  let spelled := members reversed.reverse
  if negated then .without spelled else .within spelled

def Reader.step (r : Reader) (c : Char) : Except PatternFault Reader :=
  match r.reading with
  | .between => .ok (r.begin c)
  | .stars count fresh =>
    if c = '*' then .ok (r.advance fresh r.tokens (.stars (count + 1) fresh))
    else do
      match ← starToken r.position count fresh (some c) with
      -- the slash after it is part of the token, since there may be no directory at all
      | .tree => pure (r.advance true (.tree :: r.tokens) .between)
      | token => pure (Reader.begin ⟨r.position, false, token :: r.tokens, .between⟩ c)
  | .bracket opened =>
    .ok (r.advance false r.tokens (if c = '!' then .set opened true [] else .set opened false [c]))
  | .set opened negated reversed =>
    -- as the first member, the bracket does not close the set
    if c = ']' ∧ reversed ≠ [] then
      .ok (r.advance false (setToken negated reversed :: r.tokens) .between)
    else .ok (r.advance false r.tokens (.set opened negated (c :: reversed)))

/-- The tokens when the pattern ends here. -/
def Reader.finish (r : Reader) : Except PatternFault (List Token) :=
  match r.reading with
  | .between => .ok r.tokens.reverse
  | .stars count fresh => do
    return ((← starToken r.position count fresh none) :: r.tokens).reverse
  | .bracket opened | .set opened _ _ => .error ⟨opened, .openSet⟩

def compile (pattern : List Char) : Except PatternFault (List Token) := do
  (← pattern.foldlM Reader.step Reader.start).finish

/-- The character has a meaning of its own in patterns. -/
def isMeta (c : Char) : Bool := c == '?' || c == '*' || c == '['

/-- A text as a pattern that matches it alone. -/
def escape (text : List Char) : List Char :=
  text.flatMap fun c => if isMeta c || c == ']' then ['[', c, ']'] else [c]

/-! ## Matching -/

/-- One character matches a token that stands for one character. -/
def Token.holds (c : Char) : Token → Bool
  | .char a => c == a
  | .any => true
  | .within ms => ms.any (Member.holds c)
  | .without ms => !ms.any (Member.holds c)
  | .run | .tree => false

/-- The token stands for any run of characters. -/
def Token.isRun : Token → Bool
  | .run | .tree => true
  | _ => false

/--
For each end part of the tokens, from all of them to none: does it match the empty name?
-/
def matchesEmpty : List Token → List Bool
  | [] => [true]
  | t :: ts =>
    let row := matchesEmpty ts
    (t.isRun && row.headD false) :: row

/--
For each end part of the tokens: does it match a name that starts with `c`, given the answers for
the name without it?
-/
def matchesNext (c : Char) : List Token → List Bool → List Bool
  | t :: ts, here :: later =>
    let row := matchesNext c ts later
    -- a run either ends before `c` or takes it and goes on
    (if t.isRun then row.headD false || here else t.holds c && later.headD false) :: row
  | _, _ => [false]

/-- For each end part of the tokens: does it match the name? -/
def matchTable (ts : List Token) : List Char → List Bool
  | [] => matchesEmpty ts
  | c :: cs => matchesNext c ts (matchTable ts cs)

/-- The whole name matches the tokens. -/
def accepts (ts : List Token) (name : List Char) : Bool := (matchTable ts name).headD false

end BootSigning.Glob
