/-!
# UTF-8

Characters and their bytes, in both directions.

* `encode`: the bytes of a text
* `Piece`, `decode`: the reading of arbitrary bytes, with each maximal broken part kept apart
* `lossy`: every broken part replaced by U+FFFD
* `text?`: the text of bytes without a broken part
-/

namespace BootSigning.Utf8

/-! ## Writing -/

/-- The bytes of one character, shortest form. -/
def encodeChar (c : Char) : List UInt8 :=
  let v := c.toNat
  if v < 0x80 then [v.toUInt8]
  else if v < 0x800 then [(0xC0 + v / 64).toUInt8, (0x80 + v % 64).toUInt8]
  else if v < 0x10000 then
    [(0xE0 + v / 4096).toUInt8, (0x80 + v / 64 % 64).toUInt8, (0x80 + v % 64).toUInt8]
  else
    [(0xF0 + v / 262144).toUInt8, (0x80 + v / 4096 % 64).toUInt8, (0x80 + v / 64 % 64).toUInt8,
      (0x80 + v % 64).toUInt8]

def encode (text : String) : List UInt8 := text.toList.flatMap encodeChar

/-! ## Reading -/

/-- A part of decoded bytes: one character, or a maximal run that starts no character. -/
inductive Piece where
  | char (c : Char)
  | broken (bytes : List UInt8)
  deriving DecidableEq, Repr

/-- The bytes that may follow, as closed ranges. -/
abbrev Followers := List (UInt8 × UInt8)

def tail : UInt8 × UInt8 := (0x80, 0xBF)

/-- The bytes that must follow a lead byte, and the lead byte's share of the code point. -/
def followers (lead : UInt8) : Option (Nat × Followers) :=
  if lead < 0xC2 then none
  else if lead < 0xE0 then some (lead.toNat - 0xC0, [tail])
  else if lead = 0xE0 then some (0, [(0xA0, 0xBF), tail])
  else if lead = 0xED then some (13, [(0x80, 0x9F), tail])
  else if lead < 0xF0 then some (lead.toNat - 0xE0, [tail, tail])
  else if lead = 0xF0 then some (0, [(0x90, 0xBF), tail, tail])
  else if lead < 0xF4 then some (lead.toNat - 0xF0, [tail, tail, tail])
  else if lead = 0xF4 then some (4, [(0x80, 0x8F), tail, tail])
  else none

structure Partial where
  /-- The bytes read so far. -/
  seen : List UInt8
  /-- The code point so far. -/
  code : Nat
  /-- What the next byte must be. -/
  next : UInt8 × UInt8
  /-- What the bytes after it must be. -/
  later : Followers
  deriving DecidableEq, Repr

/-- A byte read where a character may start. -/
def start (b : UInt8) : Piece ⊕ Partial :=
  if b < 0x80 then .inl (.char (Char.ofNat b.toNat))
  else match followers b with
    | some (code, next :: later) => .inr ⟨[b], code, next, later⟩
    | _ => .inl (.broken [b])

/-- A byte read inside a character, if it may stand there. -/
def Partial.advance? (p : Partial) (b : UInt8) : Option (Piece ⊕ Partial) :=
  if p.next.1 ≤ b ∧ b ≤ p.next.2 then
    let code := p.code * 64 + (b.toNat - 0x80)
    match p.later with
    | [] => some (.inl (.char (Char.ofNat code)))
    | next :: later => some (.inr ⟨p.seen ++ [b], code, next, later⟩)
  else none

/-- Decoding from inside a character (`some`) or from between two (`none`). -/
def decodeFrom : Option Partial → List UInt8 → List Piece
  | none, [] => []
  | some p, [] => [.broken p.seen]
  | none, b :: rest =>
    match start b with
    | .inl piece => piece :: decodeFrom none rest
    | .inr p => decodeFrom (some p) rest
  | some p, b :: rest =>
    match p.advance? b with
    | some (.inl piece) => piece :: decodeFrom none rest
    | some (.inr p') => decodeFrom (some p') rest
    | none =>
      .broken p.seen ::
        match start b with
        | .inl piece => piece :: decodeFrom none rest
        | .inr p' => decodeFrom (some p') rest

/-- The characters and broken parts of a byte string, in order. -/
def decode (bytes : List UInt8) : List Piece := decodeFrom none bytes

/-- U+FFFD, which stands for a broken part. -/
def replacement : Char := Char.ofNat 0xFFFD

def Piece.shown : Piece → Char
  | .char c => c
  | .broken _ => replacement

/-- The character of a piece that is not broken. -/
def Piece.char? : Piece → Option Char
  | .char c => some c
  | .broken _ => none

/-- The text of any bytes; each broken part shows as one U+FFFD. -/
def lossy (bytes : List UInt8) : String :=
  String.ofList ((decode bytes).map Piece.shown)

/-- The text of bytes that are UTF-8 throughout. -/
def text? (bytes : List UInt8) : Option String :=
  ((decode bytes).mapM Piece.char?).map String.ofList

end BootSigning.Utf8
