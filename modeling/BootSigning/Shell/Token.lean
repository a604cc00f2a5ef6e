import BootSigning.Shell.Grammar

/-!
# Tokens of shell scripts

* `Token`: a word, an operator, or what cannot be read
* `Lexer.tokens`: the tokens of a text, each with its line
-/

namespace BootSigning.Shell

inductive Token where
  | word (w : Word)
  /-- An operator, a line break among them. -/
  | operator (text : String)
  /-- An operator that connects a channel, with the channel if it is named. -/
  | redirection (channel : Option Nat) (connection : Connection)
  /-- The text cannot be read from here on. -/
  | broken (message : String)
  deriving DecidableEq, Repr

structure PlacedToken where
  token : Token
  line : Nat
  deriving DecidableEq, Repr

namespace Lexer

/-! ## Characters -/

def endsWord (c : Char) : Bool := [' ', '\t', '\n', ';', '&', '|', '<', '>', '(', ')'].contains c

/-- The character may start the name of a variable. -/
def startsName (c : Char) : Bool := c.isAlpha || c == '_'

/-- The character may stand in the name of a variable. -/
def inName (c : Char) : Bool := c.isAlphanum || c == '_'

/-- The characters that a backslash makes plain inside double quotes. -/
def escapable : List Char := ['$', '"', '\\', Char.ofNat 0x60]

/-- A name or number at the front of a text, or one of the signs that name parameters. -/
def nameAt? (braced : Bool) : List Char → Option (String × List Char)
  | [] => none
  | c :: rest =>
    if startsName c then some (String.ofList (c :: rest.takeWhile inName), rest.dropWhile inName)
    else if c.isDigit then
      if braced then
        some (String.ofList (c :: rest.takeWhile Char.isDigit), rest.dropWhile Char.isDigit)
      else some (String.singleton c, rest)
    else if ['@', '*', '#', '?', '$', '!', '-'].contains c then some (String.singleton c, rest)
    else none

/-! ## Words -/

/-- A reading of the front of a text; it yields what was read and the rest, or the fault. -/
abbrev Reading := Except String

def openQuotes : String := "Syntax error: Unterminated quoted string"

/-- The fault of a brace that is not closed. -/
def openBrace : String :=
  "Syntax error: end of file unexpected (expecting \"\x7d\")"

/-- The fault of a parameter with an edit that means nothing. -/
def badEdit : String := "Bad substitution"

/-- The quotes that the reading of an operand is in. -/
inductive Quotes where
  | none
  | single
  | double
  deriving DecidableEq, Repr

/-- The operand of an edit, up to the brace that closes it. The number bounds the steps. -/
def operand : Nat → Quotes → List Char → Reading (List Atom × List Char)
  | 0, _, _ => .error openBrace
  | _, _, [] => .error openBrace
  | steps + 1, quotes, c :: rest =>
    let quoted := quotes != .none
    let push (a : Atom) (after : List Char) : Reading (List Atom × List Char) := do
      let (atoms, after) ← operand steps quotes after
      return (a :: atoms, after)
    match quotes, c with
    | .none, '\x7d' => .ok ([], rest)
    | .none, '\'' => operand steps .single rest
    | .single, '\'' => operand steps .none rest
    | .single, c => push (.char c true) rest
    | .none, '"' => operand steps .double rest
    | .double, '"' => operand steps .none rest
    | _, '\\' =>
      match rest with
      | d :: rest => push (.char d true) rest
      | [] => .error openBrace
    | _, '$' =>
      match nameAt? false rest with
      | some (name, rest) => push (.parameter name quoted) rest
      | none => push (.char c quoted) rest
    | _, c => push (.char c quoted) rest

/-- The edit that follows the name of a braced parameter. -/
def editAt? : List Char → Option (Edit × List Char)
  | '#' :: '#' :: rest => some (.dropFront true, rest)
  | '#' :: rest => some (.dropFront false, rest)
  | '%' :: '%' :: rest => some (.dropBack true, rest)
  | '%' :: rest => some (.dropBack false, rest)
  | ':' :: '-' :: rest => some (.standIn true, rest)
  | '-' :: rest => some (.standIn false, rest)
  | ':' :: '+' :: rest => some (.replacement true, rest)
  | '+' :: rest => some (.replacement false, rest)
  | _ => none

def braced (quoted : Bool) (cs : List Char) : Reading (Piece × List Char) :=
  match cs with
  | '#' :: c :: rest =>
    if c = '\x7d' then .ok (.atom (.parameter "#" quoted), rest)
    else match nameAt? true (c :: rest) with
      | some (name, '\x7d' :: rest) => .ok (.edited name .length [] quoted, rest)
      | _ => .error badEdit
  | _ =>
    match nameAt? true cs with
    | none => .error badEdit
    | some (name, '\x7d' :: rest) => .ok (.atom (.parameter name quoted), rest)
    | some (name, rest) =>
      match editAt? rest with
      | none => .error badEdit
      | some (edit, rest) => do
        let (atoms, rest) ← operand (rest.length + 1) .none rest
        return (.edited name edit atoms quoted, rest)

def dollar (quoted : Bool) : List Char → Reading (Piece × List Char)
  | '\x7b' :: rest => braced quoted rest
  | cs =>
    match nameAt? false cs with
    | some (name, rest) => .ok (.atom (.parameter name quoted), rest)
    | none => .ok (.atom (.char '$' quoted), cs)

def doubleQuoted : Nat → List Char → Reading (Word × List Char)
  | 0, _ => .error openQuotes
  | _, [] => .error openQuotes
  | steps + 1, c :: rest =>
    let plain (c : Char) (after : List Char) : Reading (Word × List Char) := do
      let (pieces, after) ← doubleQuoted steps after
      return (.atom (.char c true) :: pieces, after)
    match c, rest with
    | '"', rest => .ok ([], rest)
    | '\\', '\n' :: rest => doubleQuoted steps rest
    | '\\', d :: rest => if escapable.contains d then plain d rest else plain '\\' (d :: rest)
    | '$', rest => do
      let (piece, rest) ← dollar true rest
      let (pieces, rest) ← doubleQuoted steps rest
      return (piece :: pieces, rest)
    | c, rest => plain c rest

def word : Nat → List Char → Reading (Word × List Char)
  | 0, cs => .ok ([], cs)
  | _, [] => .ok ([], [])
  | steps + 1, c :: rest =>
    let more (front : Word) (after : List Char) : Reading (Word × List Char) := do
      let (pieces, after) ← word steps after
      return (front ++ pieces, after)
    match c, rest with
    | '\\', '\n' :: rest => more [] rest
    | '\\', d :: rest => more [.atom (.char d true)] rest
    | '\'', rest =>
      match rest.dropWhile (· != '\'') with
      | _ :: after =>
        more (.quotes :: (rest.takeWhile (· != '\'')).map fun d => .atom (.char d true)) after
      | [] => .error openQuotes
    | '"', rest => do
      let (pieces, after) ← doubleQuoted (rest.length + 1) rest
      more (.quotes :: pieces) after
    | '$', rest => do
      let (piece, after) ← dollar false rest
      more [piece] after
    | c, rest => if endsWord c then .ok ([], c :: rest) else more [.atom (.char c false)] rest

/-! ## Tokens -/

def operators : List String := ["&&", "||", ";;", "&", "|", ";", "(", ")", "\n"]

/-- The operators that connect channels, longer ones before their beginnings. -/
def connections : List (String × Connection) :=
  [(">>", .append), (">&", .duplicate), ("<&", .duplicate), (">|", .write), (">", .write),
    ("<", .read)]

/-- What follows `text`, if the characters start with it. -/
def after? (text : String) (cs : List Char) : Option (List Char) :=
  if text.toList.isPrefixOf cs then some (cs.drop text.length) else none

def connectionAt? (cs : List Char) : Option (Token × List Char) :=
  let digits := cs.takeWhile Char.isDigit
  let channel := if digits.isEmpty then none else (String.ofList digits).toNat?
  connections.findSome? fun (text, connection) =>
    (after? text (cs.drop digits.length)).map fun rest => (.redirection channel connection, rest)

def operatorAt? (cs : List Char) : Option (Token × List Char) :=
  operators.findSome? fun text => (after? text cs).map fun rest => (.operator text, rest)

/-- One token, the text starting neither with a blank nor with a comment. -/
def token (cs : List Char) : Token × List Char :=
  match (connectionAt? cs).or (operatorAt? cs) with
  | some found => found
  | none =>
    match word cs.length cs with
    | .ok (w, rest) => (.word w, rest)
    | .error message => (.broken message, [])

/-- How many lines end in the part of a text that was read. -/
def lineBreaks (before after : List Char) : Nat :=
  ((before.take (before.length - after.length)).filter (· == '\n')).length

/-- The tokens from a line on. The number bounds the steps. -/
def tokensFrom : Nat → Nat → List Char → List PlacedToken
  | 0, _, _ => []
  | _, _, [] => []
  | steps + 1, line, c :: rest =>
    if c = ' ' ∨ c = '\t' then tokensFrom steps line rest
    else if c = '#' then tokensFrom steps line (rest.dropWhile (· != '\n'))
    else if c = '\\' ∧ rest.head? = some '\n' then tokensFrom steps (line + 1) (rest.drop 1)
    else
      let (found, after) := token (c :: rest)
      ⟨found, line⟩ :: tokensFrom steps (line + lineBreaks (c :: rest) after) after

def tokens (cs : List Char) : List PlacedToken := tokensFrom (cs.length + 1) 1 cs

end Lexer

end BootSigning.Shell
