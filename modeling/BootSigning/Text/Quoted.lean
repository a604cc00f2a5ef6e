import BootSigning.Text.Printable
import BootSigning.Text.Utf8

/-!
# Quoted text

A text between double quotes, with every character that could mislead a reader spelled out.

* `escape`: one character inside quotes
* `quoted`: a text
* `quotedBytes`: bytes, whose broken parts show as `\xNN`
* `quotedList`: several texts between brackets
-/

namespace BootSigning.Text

/-- The lower-case hexadecimal digits of a number. -/
def hexDigits (n : Nat) : List Char := Nat.toDigits 16 n

def escapeCode (c : Char) : List Char :=
  '\\' :: 'u' :: '\x7b' :: (hexDigits c.toNat ++ ['\x7d'])

/-- A character as it stands between double quotes. -/
def escape (c : Char) : List Char :=
  if c = '\x00' then ['\\', '0']
  else if c = '\t' then ['\\', 't']
  else if c = '\n' then ['\\', 'n']
  else if c = '\r' then ['\\', 'r']
  else if c = '"' ∨ c = '\\' then ['\\', c]
  else if isCombining c || !isPrintable c then escapeCode c
  else [c]

def quoted (s : String) : String :=
  String.ofList ('"' :: (s.toList.flatMap escape ++ ['"']))

/-- A byte of a broken part, in two upper-case hexadecimal digits. -/
def escapeByte (b : UInt8) : List Char :=
  let digit (n : Nat) : Char := (Nat.digitChar n).toUpper
  ['\\', 'x', digit (b.toNat / 16), digit (b.toNat % 16)]

/-- A piece of decoded bytes between double quotes; here a single quote is escaped too. -/
def escapePiece : Utf8.Piece → List Char
  | .char c => if c = '\'' then ['\\', '\''] else escape c
  | .broken bytes => bytes.flatMap escapeByte

def quotedBytes (bytes : List UInt8) : String :=
  String.ofList ('"' :: ((Utf8.decode bytes).flatMap escapePiece ++ ['"']))

def quotedList (texts : List String) : String :=
  "[" ++ ", ".intercalate (texts.map quoted) ++ "]"

end BootSigning.Text
