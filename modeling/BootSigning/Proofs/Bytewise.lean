import BootSigning.Proofs.Encoding
import BootSigning.Proofs.Rendering

/-!
# Bytewise — a table read from bytes

A section is bytes, and a reader can tell its rows and fields apart without knowing what text the
bytes are: commas, quotes and line breaks are one byte each, and no other character has such a byte
in it.  Then a row is malformed if one of its fields is not UTF-8, and reading stops there.

* `byteRows`: the rows and fields of any bytes;
* `ByteRow.row?`, `tableOf`: the rows as texts, up to the first that is malformed.

`byteRows_encode` says that the bytes of a text are read field by field as the text is, and
`tableOf_encode` that therefore nothing stops the reading of a text.
-/

namespace BootSigning
namespace Sbat

/-! ## Reading bytes -/

/-- A byte, as a character for the reader. -/
def byteChar (b : UInt8) : Char := Char.ofNat b.toNat

def charByte (c : Char) : UInt8 := c.toNat.toUInt8

/-- The fields of a row, as bytes. -/
abbrev ByteRow := List (List UInt8)

def dropMarkBytes (bytes : List UInt8) : List UInt8 :=
  let mark := Utf8.encodeChar byteOrderMark
  if mark.isPrefixOf bytes then bytes.drop mark.length else bytes

def fieldBytes (field : String) : List UInt8 := field.toList.map charByte

/-- The rows of any bytes. -/
def byteRows (bytes : List UInt8) : List ByteRow :=
  let reader := ((dropMarkBytes bytes).map byteChar).foldl Reader.step Reader.start
  reader.finish.map (·.map fieldBytes)

/-- The fields as texts; a row with a field that is none is malformed. -/
def ByteRow.row? (row : ByteRow) : Option Row := row.mapM Utf8.text?

/-- The rows before the first that is malformed. -/
def tableOf : List ByteRow → Table
  | [] => []
  | row :: rest =>
    match row.row? with
    | some fields => fields :: tableOf rest
    | none => []

/-! ## Characters that mean nothing to the reader -/

/-- The characters that a table is written with, besides the text of its fields. -/
def isMark (c : Char) : Bool := c == ',' || c == '"' || isLineBreak c

theorem isMark_eq_false {c : Char} :
    isMark c = false ↔ c ≠ ',' ∧ c ≠ '"' ∧ isLineBreak c = false := by
  simp [isMark, and_assoc]

/-- The row after text that means nothing to the reader. -/
def OpenRow.extend (row : OpenRow) (text : List Char) : OpenRow :=
  { row with
    field := row.field ++ String.ofList text
    mode := if row.mode = .quoted then .quoted else .plain }

namespace Reader

/-- The row that the next character belongs to. -/
def openRow (r : Reader) : OpenRow := r.current.getD .start

theorem step_plain (r : Reader) {c : Char} (hc : isMark c = false) :
    step r c = within r.rows (r.openRow.extend [c]) := by
  rcases isMark_eq_false.1 hc with ⟨hcomma, hquote, hbreak⟩
  rcases r with ⟨rows, _ | ⟨fields, field, mode⟩⟩
  · simp [step, stepRow, openRow, OpenRow.extend, OpenRow.start, OpenRow.add, within, hcomma,
      hquote, hbreak]
  · cases mode <;> simp [step, stepRow, openRow, OpenRow.extend, OpenRow.add, within, hcomma,
      hquote, hbreak]

theorem extend_extend (row : OpenRow) (first second : List Char) :
    (row.extend first).extend second = row.extend (first ++ second) := by
  have hfield : row.field ++ String.ofList first ++ String.ofList second =
      row.field ++ String.ofList (first ++ second) := by
    apply String.toList_inj.1
    simp
  by_cases hmode : row.mode = .quoted <;> simp [OpenRow.extend, hmode, hfield]

theorem foldl_plain (r : Reader) {text : List Char} (hsome : text ≠ [])
    (htext : ∀ c ∈ text, isMark c = false) :
    text.foldl step r = within r.rows (r.openRow.extend text) := by
  induction text generalizing r with
  | nil => exact absurd rfl hsome
  | cons c rest ih =>
    rcases List.forall_mem_cons.1 htext with ⟨hc, hrest⟩
    rw [List.foldl_cons, step_plain r hc]
    by_cases hnil : rest = []
    · rw [hnil]
      rfl
    · rw [ih _ hnil hrest]
      exact congrArg (within r.rows) (extend_extend r.openRow [c] rest)

end Reader

/-! ## Characters and their bytes -/

theorem charByte_byteChar (b : UInt8) : charByte (byteChar b) = b := by
  have hsmall : b.toNat < 256 := b.toNat_lt
  rw [charByte, byteChar, Utf8.toNat_ofNat (by omega), Nat.toUInt8_eq, UInt8.ofNat_toNat]

/-- The characters that the reader gets for one character of a text. -/
def byteChars (c : Char) : List Char := (Utf8.encodeChar c).map byteChar

theorem byteChars_small {c : Char} (h : c.toNat < 0x80) : byteChars c = [c] := by
  have hbyte : c.toNat.toUInt8.toNat = c.toNat := Utf8.toNat_toUInt8 (by omega)
  simp [byteChars, Utf8.encodeChar, h, byteChar, hbyte]

theorem small_of_isMark {c : Char} (h : isMark c = true) : c.toNat < 0x80 := by
  simp only [isMark, isLineBreak, Bool.or_eq_true, beq_iff_eq] at h
  rcases h with (rfl | rfl) | rfl | rfl <;> decide

theorem byteChar_plain {b : UInt8} (h : 0x80 ≤ b.toNat) : isMark (byteChar b) = false := by
  have hsmall : b.toNat < 256 := b.toNat_lt
  have hcode : (byteChar b).toNat = b.toNat := Utf8.toNat_ofNat (by omega)
  cases hmark : isMark (byteChar b) with
  | false => rfl
  | true =>
    have hbyte := small_of_isMark hmark
    omega

theorem byteChars_plain {c : Char} (h : 0x80 ≤ c.toNat) :
    byteChars c ≠ [] ∧ ∀ d ∈ byteChars c, isMark d = false := by
  have hspells := Utf8.spells_encodeChar c
  rw [byteChars]
  generalize Utf8.encodeChar c = bytes at hspells ⊢
  generalize c.toNat = v at hspells h
  -- the first byte of such a character is large, and so are those that follow it
  cases hspells with
  | one hb => omega
  | two hlow _ ht =>
    simp [byteChar_plain ht.1, byteChar_plain (Nat.le_trans (by decide) hlow)]
  | three hlow _ ht _ hu =>
    simp [byteChar_plain ht.1, byteChar_plain hu.1,
      byteChar_plain (Nat.le_trans (by decide) hlow)]
  | four hlow _ ht _ hu hx =>
    simp [byteChar_plain ht.1, byteChar_plain hu.1, byteChar_plain hx.1,
      byteChar_plain (Nat.le_trans (by decide) hlow)]

/-- The field that the reader has for a field of a text. -/
def spread (field : String) : String := String.ofList (field.toList.flatMap byteChars)

theorem spread_empty : spread "" = "" := rfl

theorem spread_append (field : String) (text : List Char) :
    spread (field ++ String.ofList text) =
      spread field ++ String.ofList (text.flatMap byteChars) := by
  apply String.toList_inj.1
  simp [spread]

theorem spread_push {c : Char} (hc : c.toNat < 0x80) (field : String) :
    spread (field.push c) = (spread field).push c := by
  apply String.toList_inj.1
  simp [spread, byteChars_small hc]

theorem fieldBytes_spread (field : String) : fieldBytes (spread field) = Utf8.encode field := by
  have hback : charByte ∘ byteChar = id := funext charByte_byteChar
  simp [fieldBytes, spread, Utf8.encode, byteChars, List.map_flatMap, hback]

/-! ## Both readings -/

/-- The row when the fields are read as bytes. -/
def OpenRow.spread (row : OpenRow) : OpenRow :=
  ⟨row.fields.map Sbat.spread, Sbat.spread row.field, row.mode⟩

def Reader.spread (r : Reader) : Reader :=
  ⟨r.rows.map (·.map Sbat.spread), r.current.map OpenRow.spread⟩

section

variable (r : Reader) (row : OpenRow)

theorem OpenRow.spread_add {c : Char} (hc : c.toNat < 0x80) (mode : FieldMode) :
    (row.add c mode).spread = row.spread.add c mode := by
  simp [OpenRow.add, OpenRow.spread, spread_push hc]

theorem OpenRow.spread_extend (text : List Char) :
    (row.extend text).spread = row.spread.extend (text.flatMap byteChars) := by
  by_cases hmode : row.mode = .quoted <;>
    simp [OpenRow.extend, OpenRow.spread, spread_append, hmode]

theorem OpenRow.spread_start : OpenRow.start.spread = .start := by
  simp [OpenRow.start, OpenRow.spread, spread_empty]

theorem OpenRow.spread_nextField : row.nextField.spread = row.spread.nextField := by
  simp [OpenRow.nextField, OpenRow.spread, spread_empty]

theorem OpenRow.close_spread : row.spread.close = row.close.map Sbat.spread := by
  simp [OpenRow.close, OpenRow.spread]

theorem Reader.spread_start : Reader.start.spread = .start := by
  simp [Reader.start, Reader.spread]

theorem Reader.spread_endRow : (r.endRow row).spread = r.spread.endRow row.spread := by
  simp [Reader.endRow, Reader.spread, OpenRow.close_spread]

namespace Reader

theorem spread_openRow : r.spread.openRow = r.openRow.spread := by
  rcases r with ⟨rows, _ | row⟩
  · exact OpenRow.spread_start.symm
  · rfl

theorem spread_stepRow {c : Char} (hc : c.toNat < 0x80) :
    (stepRow r row c).spread = stepRow r.spread row.spread c := by
  have hwithin : ∀ row : OpenRow, (Reader.mk r.rows (some row)).spread =
      ⟨r.spread.rows, some row.spread⟩ := fun _ => rfl
  rcases row with ⟨fields, field, mode⟩
  cases mode <;>
    simp only [stepRow, apply_ite Reader.spread, hwithin, OpenRow.spread_add _ hc,
      OpenRow.spread_nextField, spread_endRow] <;>
    rfl

theorem spread_step {c : Char} (hc : c.toNat < 0x80) :
    (step r c).spread = step r.spread c := by
  rcases r with ⟨rows, _ | row⟩
  · cases hbreak : isLineBreak c with
    | true => simp [step, spread, hbreak]
    | false =>
      have hstart := spread_stepRow ⟨rows, none⟩ .start hc
      rw [OpenRow.spread_start] at hstart
      simpa [step, spread, hbreak] using hstart
  · exact spread_stepRow ⟨rows, some row⟩ row hc

/-- A character that takes several bytes goes to the field, and so does each of its bytes. -/
theorem foldl_byteChars (c : Char) :
    (byteChars c).foldl step r.spread = (step r c).spread := by
  by_cases hc : c.toNat < 0x80
  · rw [byteChars_small hc, spread_step r hc]
    rfl
  · rcases byteChars_plain (Nat.not_lt.1 hc) with ⟨hsome, hplain⟩
    have hmark : isMark c = false := by
      cases hmark : isMark c with
      | false => rfl
      | true => exact absurd (small_of_isMark hmark) hc
    rw [foldl_plain _ hsome hplain, step_plain r hmark, spread_openRow]
    have hrow := r.openRow.spread_extend [c]
    rw [List.flatMap_singleton] at hrow
    rw [← hrow]
    rfl

theorem foldl_spread (text : List Char) :
    (text.flatMap byteChars).foldl step r.spread = (text.foldl step r).spread := by
  induction text generalizing r with
  | nil => rfl
  | cons c rest ih => rw [List.flatMap_cons, List.foldl_append, foldl_byteChars, ih, List.foldl_cons]

theorem finish_spread : r.spread.finish = r.finish.map (·.map Sbat.spread) := by
  rcases r with ⟨rows, _ | row⟩
  · simp [finish, spread]
  · have hend := congrArg (·.rows.toList) (spread_endRow ⟨rows, some row⟩ row)
    simpa [finish, spread] using hend.symm

end Reader

end

/-! ## The mark at the start -/

/-- Only a text that starts with the mark has the bytes of the mark first. -/
theorem dropMarkBytes_encode (text : List Char) :
    dropMarkBytes (text.flatMap Utf8.encodeChar) = (dropMark text).flatMap Utf8.encodeChar := by
  cases text with
  | nil => rfl
  | cons c rest =>
    by_cases hc : c = byteOrderMark
    · subst hc
      simp [dropMarkBytes, dropMark]
    · have hother : ¬ Utf8.encodeChar byteOrderMark <+: (c :: rest).flatMap Utf8.encodeChar := by
        rintro ⟨more, hmore⟩
        have hread := (Utf8.spells_encodeChar byteOrderMark).read more
        have hdecode := Utf8.decode_encode (c :: rest)
        rw [← hmore, Utf8.decode, hread, Char.ofNat_toNat] at hdecode
        simp at hdecode
        exact hc hdecode.1.symm
      rw [dropMarkBytes, if_neg (by simpa using hother), dropMark, if_neg hc]

/-! ## Texts -/

/-- The bytes of a text are read field by field as the text is. -/
theorem byteRows_encode (text : String) :
    byteRows (Utf8.encode text) = (Table.parse text).map (·.map Utf8.encode) := by
  have hchars : ∀ cs : List Char,
      (cs.flatMap Utf8.encodeChar).map byteChar = cs.flatMap byteChars :=
    fun _ => List.map_flatMap
  have hfields : (fieldBytes ∘ spread) = Utf8.encode := funext fieldBytes_spread
  rw [byteRows, Utf8.encode, dropMarkBytes_encode, hchars, ← Reader.spread_start,
    Reader.foldl_spread, Reader.finish_spread, List.map_map]
  simp [Table.parse, hfields, Function.comp_def]

theorem row?_encode (row : Row) : ByteRow.row? (row.map Utf8.encode) = some row := by
  induction row with
  | nil => rfl
  | cons field rest ih =>
    have hfield : Utf8.text? (Utf8.encode field) = some field := Utf8.text?_eq_some_iff.2 rfl
    rw [ByteRow.row?] at ih
    simp [ByteRow.row?, hfield, ih]

/-- Nothing stops the reading of a text. -/
theorem tableOf_encode (table : Table) :
    tableOf (table.map (·.map Utf8.encode)) = table := by
  induction table with
  | nil => rfl
  | cons row rest ih => rw [List.map_cons, tableOf, row?_encode, ih]

end Sbat
end BootSigning
