/-!
# Shell scripts

What the text of a shell script says. A script is bytes; here each byte stands as the character of
the same number.

* `Atom`, `Piece`, `Word`: the parts of a word before it is expanded
* `Redirection`: where a channel goes
* `Phrase`: a command, simple or compound
* `Script`: phrases, and the fault that ends them if there is one
-/

namespace BootSigning.Shell

inductive Atom where
  | char (c : Char) (quoted : Bool)
  | parameter (name : String) (quoted : Bool)
  deriving DecidableEq, Repr

/-- What is done with the value of a parameter. -/
inductive Edit where
  /-- A beginning that fits a pattern goes, the longest or the shortest. -/
  | dropFront (longest : Bool)
  /-- An end that fits a pattern goes, the longest or the shortest. -/
  | dropBack (longest : Bool)
  /-- A word stands in if there is no value, or an empty one if that counts too. -/
  | standIn (emptyCounts : Bool)
  /-- A word replaces a value, unless it is empty if that counts too. -/
  | replacement (emptyCounts : Bool)
  /-- The length of the value is taken. -/
  | length
  deriving DecidableEq, Repr

inductive Piece where
  | atom (a : Atom)
  /-- Quotes, which make a word even if nothing is in them. -/
  | quotes
  | edited (name : String) (edit : Edit) (operand : List Atom) (quoted : Bool)
  deriving DecidableEq, Repr

abbrev Word := List Piece

inductive Connection where
  | read
  | write
  | append
  | duplicate
  deriving DecidableEq, Repr

structure Redirection where
  channel : Nat
  connection : Connection
  target : Word
  line : Nat
  deriving DecidableEq, Repr

structure Assignment where
  name : String
  value : Word
  deriving DecidableEq, Repr

structure SimplePhrase where
  assignments : List Assignment
  words : List Word
  redirections : List Redirection
  line : Nat
  deriving DecidableEq, Repr

inductive Phrase where
  | nothing
  | simple (phrase : SimplePhrase)
  | sequence (first second : Phrase)
  /-- The second runs if the first succeeds. -/
  | both (first second : Phrase)
  /-- The second runs if the first fails. -/
  | either (first second : Phrase)
  | negated (phrase : Phrase)
  /-- What the first writes is what the second reads. -/
  | piped (first second : Phrase)
  | branch (condition yes no : Phrase)
  /-- The body runs as long as the condition succeeds, or as long as it fails. -/
  | repeated (whileSuccess : Bool) (condition body : Phrase)
  | forEach (name : String) (words : List Word) (body : Phrase)
  /-- The body runs if the subject fits a pattern, else the other phrase. -/
  | choice (subject : Word) (patterns : List Word) (body otherwise : Phrase)
  /-- A group, which may keep its changes of the state to itself. -/
  | group (body : Phrase) (apart : Bool) (redirections : List Redirection)
  deriving Repr

structure ScriptFault where
  line : Nat
  message : String
  deriving DecidableEq, Repr

/-- The phrases of a script, line by line, and the fault that ends them if there is one. -/
structure Script where
  phrases : List Phrase
  fault : Option ScriptFault
  deriving Repr

end BootSigning.Shell
