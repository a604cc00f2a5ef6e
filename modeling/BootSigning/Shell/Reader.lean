import BootSigning.Shell.Token

/-!
# Reading shell scripts

* `Reader.phrases`: the phrases between two delimiters
* `Script.read`: a whole script, line by line; a fault ends it, and what stands before it counts
-/

namespace BootSigning.Shell

/-- A reading of the front of a token list. -/
abbrev Reader := StateT (List PlacedToken) (Except ScriptFault)

/-- The character of a piece that is written without quotes. -/
def Piece.plain? : Piece → Option Char
  | .atom (.char c false) => some c
  | _ => none

/-- The text of a word that is written without quotes and parameters. -/
def Word.plain? (w : Word) : Option String :=
  (w.mapM Piece.plain?).map String.ofList

namespace Reader

/-! ## Single tokens -/

/-- The words that delimit or join phrases where a command may start. -/
def delimiters : List String :=
  ["then", "else", "elif", "fi", "do", "done", "esac", "\x7d"]

/-- The words that may not stand for themselves where a command may start. -/
def reserved : List String :=
  delimiters ++ ["if", "while", "until", "for", "case", "in", "!", "\x7b"]

def describe : Option Token → String
  | none => "end of file"
  | some (.operator "\n") => "newline"
  | some (.operator text) => s!"\"{text}\""
  | some (.redirection _ _) => "redirection"
  | some (.broken message) => message
  | some (.word w) =>
    match Word.plain? w with
    | some text => if reserved.contains text then s!"\"{text}\"" else "word"
    | none => "word"

def peek : Reader (Option Token) := do return (← get).head?.map (·.token)

def line : Reader Nat := do return ((← get).head?.map (·.line)).getD 1

def advance : Reader Unit := modify (·.drop 1)

def unexpected {α : Type} (wanted : Option String) : Reader α := do
  let next ← peek
  let message :=
    match next, wanted with
    | some (.broken message), _ => message
    | next, none => s!"Syntax error: {describe next} unexpected"
    | next, some text => s!"Syntax error: {describe next} unexpected (expecting \"{text}\")"
  throw ⟨← line, message⟩

def atOperator (text : String) : Reader Bool := do return (← peek) == some (.operator text)

def atWord (text : String) : Reader Bool := do
  match ← peek with
  | some (.word w) => return Word.plain? w == some text
  | _ => return false

def skipOperator (text : String) : Reader Bool := do
  let there ← atOperator text
  if there then advance
  return there

/-- Passes over one of the operators if it is next. -/
def skipOneOf : List String → Reader Bool
  | [] => return false
  | text :: rest => do
    if ← skipOperator text then return true else skipOneOf rest

def skipWord (text : String) : Reader Bool := do
  let there ← atWord text
  if there then advance
  return there

def expectWord (text : String) : Reader Unit := do
  if !(← skipWord text) then unexpected (some text)

def skipLines : Reader Unit := modify (·.dropWhile (·.token == .operator "\n"))

def anyWord : Reader Word := do
  match ← peek with
  | some (.word w) => advance; return w
  | _ => unexpected none

def atDelimiter : Reader Bool := do
  match ← peek with
  | none => return true
  | some (.operator text) => return text == ")" || text == ";;"
  | some (.word w) => return (Word.plain? w).any delimiters.contains
  | _ => return false

/-! ## Simple commands -/

def assignment? (w : Word) : Option Assignment :=
  let front := w.takeWhile fun piece => piece.plain?.any (· != '=')
  match Word.plain? front, w.drop front.length with
  | some name, .atom (.char '=' false) :: value =>
    match name.toList with
    | c :: rest =>
      if Lexer.startsName c && rest.all Lexer.inName then some ⟨name, value⟩ else none
    | [] => none
  | _, _ => none

def redirection (channel : Option Nat) (connection : Connection) : Reader Redirection := do
  let here ← line
  advance
  let standard := if connection == .read then 0 else 1
  return ⟨channel.getD standard, connection, ← anyWord, here⟩

def redirections : Nat → Reader (List Redirection)
  | 0 => return []
  | steps + 1 => do
    match ← peek with
    | some (.redirection channel connection) =>
      let first ← redirection channel connection
      return first :: (← redirections steps)
    | _ => return []

def simpleParts : Nat → SimplePhrase → Reader SimplePhrase
  | 0, phrase => return phrase
  | steps + 1, phrase => do
    match ← peek with
    | some (.redirection channel connection) =>
      let r ← redirection channel connection
      simpleParts steps { phrase with redirections := phrase.redirections ++ [r] }
    | some (.word w) =>
      advance
      -- an assignment counts as one only before the first word
      match if phrase.words.isEmpty then assignment? w else none with
      | some a => simpleParts steps { phrase with assignments := phrase.assignments ++ [a] }
      | none => simpleParts steps { phrase with words := phrase.words ++ [w] }
    | _ => return phrase

def simple (steps : Nat) : Reader Phrase := do
  let phrase ← simpleParts steps ⟨[], [], [], ← line⟩
  if phrase.words.isEmpty && phrase.assignments.isEmpty && phrase.redirections.isEmpty then
    unexpected none
  else return .simple phrase

/-! ## Compound commands -/

def wordsHere : Nat → Reader (List Word)
  | 0 => return []
  | steps + 1 => do
    match ← peek with
    | some (.word w) =>
      advance
      return w :: (← wordsHere steps)
    | _ => return []

/-- The patterns of a case, up to their parenthesis. -/
def patterns : Nat → Reader (List Word)
  | 0 => unexpected none
  | steps + 1 => do
    let first ← anyWord
    if ← skipOperator "|" then return first :: (← patterns steps)
    else if ← skipOperator ")" then return [first]
    else unexpected (some ")")

/-- The words that a loop runs over; without any, the arguments. -/
def loopWords (steps : Nat) : Reader (List Word) := do
  skipLines
  if ← skipWord "in" then wordsHere steps
  else return [[.atom (.parameter "@" true)]]

mutual

/-- Phrases up to a delimiter; where `onLine` holds, a line break ends them too. -/
def phrases : Nat → Bool → Reader Phrase
  | 0, _ => unexpected none
  | steps + 1, onLine => do
    if !onLine then skipLines
    if (← atDelimiter) || (onLine && (← atOperator "\n")) then return .nothing
    let first ← chain steps (← pipeline steps)
    if ← skipOneOf (if onLine then [";", "&"] else [";", "&", "\n"]) then
      return .sequence first (← phrases steps onLine)
    else return first

def chain : Nat → Phrase → Reader Phrase
  | 0, left => return left
  | steps + 1, left => do
    if ← skipOperator "&&" then
      skipLines
      chain steps (.both left (← pipeline steps))
    else if ← skipOperator "||" then
      skipLines
      chain steps (.either left (← pipeline steps))
    else return left

def pipeline : Nat → Reader Phrase
  | 0 => unexpected none
  | steps + 1 => do
    if ← skipWord "!" then return .negated (← pipeline steps)
    let first ← command steps
    if ← skipOperator "|" then
      skipLines
      return .piped first (← pipeline steps)
    else return first

def command : Nat → Reader Phrase
  | 0 => unexpected none
  | steps + 1 => do
    let body? : Option Phrase ← compound steps
    match body? with
    | none => simple (steps + 1)
    | some body =>
      -- what is redirected after a compound command is redirected for all of it
      match ← redirections (steps + 1) with
      | [] => return body
      | rs => return .group body false rs

def compound : Nat → Reader (Option Phrase)
  | 0 => unexpected none
  | steps + 1 => do
    if ← skipWord "if" then return some (← branches steps)
    else if ← skipWord "while" then return some (← loop steps true)
    else if ← skipWord "until" then return some (← loop steps false)
    else if ← skipWord "for" then
      let name ← anyWord
      let words ← loopWords (steps + 1)
      let _ ← skipOperator ";"
      skipLines
      expectWord "do"
      let body ← phrases steps false
      expectWord "done"
      return some (.forEach ((Word.plain? name).getD "") words body)
    else if ← skipWord "case" then
      let subject ← anyWord
      skipLines
      expectWord "in"
      return some (← choices steps subject)
    else if ← skipWord "\x7b" then
      let body ← phrases steps false
      expectWord "\x7d"
      return some (.group body false [])
    else if ← skipOperator "(" then
      let body ← phrases steps false
      if ← skipOperator ")" then return some (.group body true [])
      else unexpected (some ")")
    else return none

def branches : Nat → Reader Phrase
  | 0 => unexpected none
  | steps + 1 => do
    let condition ← phrases steps false
    expectWord "then"
    let yes ← phrases steps false
    -- an `elif` shares the `fi` of the branch it is in
    if ← skipWord "elif" then return .branch condition yes (← branches steps)
    else
      let no ← if ← skipWord "else" then phrases steps false else pure .nothing
      expectWord "fi"
      return .branch condition yes no

def loop : Nat → Bool → Reader Phrase
  | 0, _ => unexpected none
  | steps + 1, whileSuccess => do
    let condition ← phrases steps false
    expectWord "do"
    let body ← phrases steps false
    expectWord "done"
    return .repeated whileSuccess condition body

def choices : Nat → Word → Reader Phrase
  | 0, _ => unexpected none
  | steps + 1, subject => do
    skipLines
    if ← skipWord "esac" then return .nothing
    let _ ← skipOperator "("
    let ps ← patterns (steps + 1)
    let body ← phrases steps false
    -- the last choice may do without its `;;`
    if ← skipOperator ";;" then return .choice subject ps body (← choices steps subject)
    else
      expectWord "esac"
      return .choice subject ps body .nothing

end

def scriptLine (steps : Nat) : Reader Phrase := do
  let phrase ← phrases steps true
  match ← peek with
  | none => return phrase
  | some (.operator "\n") => return phrase
  | _ => unexpected none

/-- The lines of a script. The first number bounds the lines, the second the steps in a line. -/
def scriptLines : Nat → Nat → List PlacedToken → Script
  | 0, _, _ => ⟨[], none⟩
  | lines + 1, steps, tokens =>
    match skipLines.run tokens with
    | .error fault => ⟨[], some fault⟩
    | .ok ((), []) => ⟨[], none⟩
    | .ok ((), here) =>
      match (scriptLine steps).run here with
      | .error fault => ⟨[], some fault⟩
      | .ok (phrase, rest) =>
        let later := scriptLines lines steps rest
        ⟨phrase :: later.phrases, later.fault⟩

end Reader

def Script.read (text : List Char) : Script :=
  let tokens := Lexer.tokens text
  Reader.scriptLines (tokens.length + 1) (8 * tokens.length + 8) tokens

end BootSigning.Shell
