/-!
# Shell patterns

* `Wildcard`, `Wildcard.compile`: a pattern, quoted characters standing for themselves
* `Wildcard.fits`: the texts that fit it
* `Wildcard.dropFront`, `Wildcard.dropBack`: a text without the beginning or end that fits
-/

namespace BootSigning.Shell

structure MaybeQuoted where
  char : Char
  quoted : Bool
  deriving DecidableEq, Repr

inductive Wildcard where
  | char (c : Char)
  | anyChar
  | anyText
  /-- One character in, or not in, one of some ranges. -/
  | oneOf (negated : Bool) (ranges : List (Char × Char))
  deriving DecidableEq, Repr

namespace Wildcard

def isPlain (c : Char) (m : MaybeQuoted) : Bool := m.char == c && !m.quoted

def ranges : List MaybeQuoted → List (Char × Char)
  | a :: ⟨'-', false⟩ :: b :: rest => (a.char, b.char) :: ranges rest
  | a :: rest => (a.char, a.char) :: ranges rest
  | [] => []

/-- A set, after its opening bracket; none if it is not closed. -/
def set? (cs : List MaybeQuoted) : Option (Wildcard × List MaybeQuoted) :=
  let (negated, body) :=
    match cs with
    | m :: rest => if isPlain '!' m then (true, rest) else (false, m :: rest)
    | [] => (false, [])
  let first := body.take 1
  let later := body.drop 1
  match later.dropWhile (!isPlain ']' ·) with
  | _ :: rest => some (.oneOf negated (ranges (first ++ later.takeWhile (!isPlain ']' ·))), rest)
  | [] => none

def compileFrom : Nat → List MaybeQuoted → List Wildcard
  | 0, _ => []
  | _, [] => []
  | steps + 1, m :: rest =>
    if isPlain '*' m then .anyText :: compileFrom steps rest
    else if isPlain '?' m then .anyChar :: compileFrom steps rest
    else if isPlain '[' m then
      match set? rest with
      | some (set, after) => set :: compileFrom steps after
      | none => .char '[' :: compileFrom steps rest
    else .char m.char :: compileFrom steps rest

def compile (cs : List MaybeQuoted) : List Wildcard := compileFrom (cs.length + 1) cs

def fits : List Wildcard → List Char → Bool
  | [], cs => cs.isEmpty
  | .anyText :: rest, cs => (List.range (cs.length + 1)).any fun n => fits rest (cs.drop n)
  | _ :: _, [] => false
  | .char d :: rest, c :: cs => c == d && fits rest cs
  | .anyChar :: rest, _ :: cs => fits rest cs
  | .oneOf negated ranges :: rest, c :: cs =>
    (ranges.any fun (low, high) => low ≤ c && c ≤ high) != negated && fits rest cs

/-- The lengths of the parts of a text, the longest first or last. -/
def lengths (longest : Bool) (cs : List Char) : List Nat :=
  let upward := List.range (cs.length + 1)
  if longest then upward.reverse else upward

/-- A text without the longest or shortest beginning that fits. -/
def dropFront (pattern : List Wildcard) (longest : Bool) (cs : List Char) : List Char :=
  match (lengths longest cs).find? fun n => fits pattern (cs.take n) with
  | some n => cs.drop n
  | none => cs

/-- A text without the longest or shortest end that fits. -/
def dropBack (pattern : List Wildcard) (longest : Bool) (cs : List Char) : List Char :=
  match (lengths longest cs).find? fun n => fits pattern (cs.drop (cs.length - n)) with
  | some n => cs.take (cs.length - n)
  | none => cs

end Wildcard

end BootSigning.Shell
