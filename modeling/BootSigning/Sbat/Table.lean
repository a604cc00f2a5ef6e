/-!
# SBAT tables

An SBAT section is a table in comma-separated form: rows end with a line break, fields may stand
in double quotes, and a double quote inside quotes is written twice.

* `Row`, `Table`: the fields of a row, the rows of a table
* `Reader`: the state of reading, character by character
* `Table.parse`: the table of any text
* `Table.isCrdyboot`: the table names the crdyboot component
-/

namespace BootSigning.Sbat

abbrev Row := List String

abbrev Table := List Row

/-! ## Reading -/

/-- How the field that is being read goes on. -/
inductive FieldMode where
  /-- Nothing of it was read. -/
  | fresh
  /-- Outside quotes. -/
  | plain
  /-- Inside quotes. -/
  | quoted
  /-- After a quote that closes the field, or is the first of two. -/
  | closing
  deriving DecidableEq, Repr

structure OpenRow where
  /-- The fields before the one that is being read. -/
  fields : Array String
  /-- The field so far. -/
  field : String
  mode : FieldMode
  deriving DecidableEq, Repr

structure Reader where
  /-- The rows that are complete. -/
  rows : Array Row
  /-- The row that is being read; none between two rows. -/
  current : Option OpenRow
  deriving DecidableEq, Repr

def isLineBreak (c : Char) : Bool := c == '\n' || c == '\r'

namespace OpenRow

def start : OpenRow := ⟨#[], "", .fresh⟩

def add (row : OpenRow) (c : Char) (mode : FieldMode) : OpenRow :=
  { row with field := row.field.push c, mode := mode }

/-- The row after a comma that ends a field. -/
def nextField (row : OpenRow) : OpenRow := ⟨row.fields.push row.field, "", .fresh⟩

def close (row : OpenRow) : Row := (row.fields.push row.field).toList

end OpenRow

namespace Reader

def start : Reader := ⟨#[], none⟩

/-- The state after the current row ended. -/
def endRow (r : Reader) (row : OpenRow) : Reader := ⟨r.rows.push row.close, none⟩

def stepRow (r : Reader) (row : OpenRow) (c : Char) : Reader :=
  match row.mode with
  -- within quotes commas and line breaks are text
  | .quoted =>
    if c = '"' then { r with current := some { row with mode := .closing } }
    else { r with current := some (row.add c .quoted) }
  | mode =>
    if c = ',' then { r with current := some row.nextField }
    else if isLineBreak c then r.endRow row
    else if c = '"' then
      match mode with
      -- a quote opens a field, doubles the one before it, or stands for itself in plain text
      | .fresh => { r with current := some { row with mode := .quoted } }
      | .closing => { r with current := some (row.add c .quoted) }
      | _ => { r with current := some (row.add c .plain) }
    else { r with current := some (row.add c .plain) }

def step (r : Reader) (c : Char) : Reader :=
  match r.current with
  | some row => r.stepRow row c
  -- between rows line breaks say nothing
  | none => if isLineBreak c then r else r.stepRow .start c

/-- The rows when the text ends here. -/
def finish (r : Reader) : Table :=
  match r.current with
  | some row => (r.endRow row).rows.toList
  | none => r.rows.toList

end Reader

/-- The mark U+FEFF, which may start a text. -/
def byteOrderMark : Char := Char.ofNat 0xFEFF

def dropMark : List Char → List Char
  | c :: rest => if c = byteOrderMark then rest else c :: rest
  | [] => []

/-- The table of a text. Every text is a table; blank lines are no rows. -/
def Table.parse (text : String) : Table :=
  ((dropMark text.toList).foldl Reader.step Reader.start).finish

/-! ## Meaning -/

/-- The component that a row is about. -/
def Row.component? (row : Row) : Option String := row.head?

/-- The component whose bootloaders get a new key. -/
def crdyboot : String := "crdyboot"

/-- The second row is about the crdyboot component. -/
def Table.isCrdyboot (table : Table) : Bool :=
  match table[1]? with
  | some row => row.component? == some crdyboot
  | none => false

end BootSigning.Sbat
