/-!
# Printing commands

What `echo` and `printf` write, byte by byte; each byte stands as the character of the same number.

* `Printing.unescape`: a text with its backslash sequences carried out
* `Printing.echo`: the arguments on a line
* `Printing.printf`: a format, used as often as there are arguments for it
-/

namespace BootSigning.Shell.Printing

/-- A text that was printed, and whether printing stops there. -/
structure Printed where
  text : List Char
  stopped : Bool
  deriving DecidableEq, Repr

def isOctal (c : Char) : Bool := '0' ≤ c && c ≤ '7'

/-- The value of digits in a base below eleven. -/
def digitsValue (base : Nat) (cs : List Char) : Nat :=
  cs.foldl (fun n c => n * base + (c.toNat - '0'.toNat)) 0

/-- The character that a letter after a backslash stands for. -/
def control? : Char → Option Char
  | 'a' => some (Char.ofNat 7)
  | 'b' => some (Char.ofNat 8)
  | 'f' => some (Char.ofNat 12)
  | 'n' => some '\n'
  | 'r' => some '\r'
  | 't' => some '\t'
  | 'v' => some (Char.ofNat 11)
  | '\\' => some '\\'
  | _ => none

def Printed.after (front : List Char) (p : Printed) : Printed := { p with text := front ++ p.text }

/-- A text with its backslash sequences carried out. The number bounds the steps. -/
def unescapeFrom : Nat → List Char → Printed
  | 0, _ => ⟨[], false⟩
  | _, [] => ⟨[], false⟩
  | _, ['\\'] => ⟨['\\'], false⟩
  | steps + 1, '\\' :: c :: rest =>
    if c = 'c' then ⟨[], true⟩
    else if isOctal c then
      let digits := if c = '0' ∧ rest.head?.any isOctal then rest else c :: rest
      let value := (digits.take 3).takeWhile isOctal
      (unescapeFrom steps (digits.drop value.length)).after
        [Char.ofNat (digitsValue 8 value % 256)]
    else match control? c with
      | some d => (unescapeFrom steps rest).after [d]
      | none => (unescapeFrom steps rest).after ['\\', c]
  | steps + 1, c :: rest => (unescapeFrom steps rest).after [c]

def unescape (cs : List Char) : Printed := unescapeFrom cs.length cs

/-- The arguments on a line; `-n` leaves out its end. -/
def echo (arguments : List (List Char)) : List Char :=
  let (ending, shown) :=
    match arguments with
    | ['-', 'n'] :: rest => ([], rest)
    | all => (['\n'], all)
  let printed := unescape ([' '].intercalate shown)
  if printed.stopped then printed.text else printed.text ++ ending

/-! ## Formats -/

structure Layout where
  flags : List Char
  width : Nat
  precision : Option Nat
  deriving DecidableEq, Repr

def Layout.pad (l : Layout) (cs : List Char) : List Char :=
  let fill := List.replicate (l.width - cs.length) ' '
  if l.flags.contains '-' then cs ++ fill else fill ++ cs

/-- Digits with a sign, filled up to precision and width. -/
def Layout.padNumber (l : Layout) (sign digits : List Char) : List Char :=
  let digits := List.replicate (l.precision.getD 1 - digits.length) '0' ++ digits
  if l.flags.contains '0' && !l.flags.contains '-' && l.precision.isNone then
    sign ++ List.replicate (l.width - sign.length - digits.length) '0' ++ digits
  else l.pad (sign ++ digits)

/-- The integer that an argument spells, if it spells one. -/
def integer? (cs : List Char) : Option Int :=
  match cs with
  | [] => some 0
  | '\'' :: c :: _ | '"' :: c :: _ => some c.toNat
  | '-' :: digits => if digits.all Char.isDigit then some (-(digitsValue 10 digits : Int)) else none
  | '+' :: digits | digits =>
    if digits.all Char.isDigit then some (digitsValue 10 digits) else none

/-- The digits of a number as a conversion asks for them. -/
def digitsFor (conversion : Char) (n : Nat) : List Char :=
  match conversion with
  | 'o' => Nat.toDigits 8 n
  | 'x' => Nat.toDigits 16 n
  | 'X' => (Nat.toDigits 16 n).map Char.toUpper
  | _ => Nat.toDigits 10 n

def convert (l : Layout) (conversion : Char) (argument : List Char) : Printed :=
  match conversion with
  | 's' => ⟨l.pad (argument.take (l.precision.getD argument.length)), false⟩
  | 'b' =>
    let printed := unescape argument
    { printed with text := l.pad printed.text }
  | 'c' => ⟨l.pad (argument.take 1), false⟩
  | _ =>
    let value := (integer? argument).getD 0
    let sign :=
      if value < 0 then ['-'] else if l.flags.contains '+' then ['+']
      else if l.flags.contains ' ' then [' '] else []
    ⟨l.padNumber sign (digitsFor conversion value.natAbs), false⟩

/-- A format carried out once: what is printed, and the arguments that are left. -/
def formatOnce : Nat → List Char → List (List Char) → Printed × List (List Char)
  | 0, _, arguments => (⟨[], false⟩, arguments)
  | _, [], arguments => (⟨[], false⟩, arguments)
  | steps + 1, '%' :: '%' :: rest, arguments =>
    let (printed, left) := formatOnce steps rest arguments
    (printed.after ['%'], left)
  | steps + 1, '%' :: rest, arguments =>
    let flags := rest.takeWhile ['-', '+', ' ', '0', '#'].contains
    let rest := rest.drop flags.length
    let width := rest.takeWhile Char.isDigit
    let rest := rest.drop width.length
    let (precision, rest) :=
      match rest with
      | '.' :: rest =>
        (some (digitsValue 10 (rest.takeWhile Char.isDigit)), rest.dropWhile Char.isDigit)
      | rest => (none, rest)
    match rest with
    | [] => (⟨[], true⟩, arguments)
    | conversion :: rest =>
      let shown := convert ⟨flags, digitsValue 10 width, precision⟩ conversion (arguments.headD [])
      if shown.stopped then (shown, arguments.drop 1)
      else
        let (printed, left) := formatOnce steps rest (arguments.drop 1)
        (printed.after shown.text, left)
  | steps + 1, c :: rest, arguments =>
    let (printed, left) := formatOnce steps rest arguments
    (printed.after [c], left)

/-- A format carried out until no arguments are left, or it takes none. -/
def formatAll : Nat → List Char → List (List Char) → List Char
  | 0, _, _ => []
  | rounds + 1, format, arguments =>
    let (printed, left) := formatOnce (format.length + 1) format arguments
    if printed.stopped || left.isEmpty || left.length == arguments.length then printed.text
    else printed.text ++ formatAll rounds format left

def printf (format : List Char) (arguments : List (List Char)) : List Char :=
  let prepared := unescape format
  formatAll (arguments.length + 1) prepared.text arguments

end BootSigning.Shell.Printing
