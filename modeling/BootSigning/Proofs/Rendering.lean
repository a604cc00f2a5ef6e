import BootSigning.Sbat.Table

/-!
# Rendering — written tables read back

One table can be written down in many ways: a field may stand in quotes or not, a row may end with
any line breaks, and the last row need not end at all.  This file says which texts are written
forms of a table:

* `FieldText`, `FieldsText`, `RowText`: a field, fields with commas between, a row;
* `RowsText`, `TableText`: rows with their line breaks, and a whole table.

`parse_tableText` says that reading undoes all of them.
-/

namespace BootSigning
namespace Sbat

/-! ## Written forms -/

/-- The characters of a field within quotes, where a quote is written twice. -/
def doubled (field : List Char) : List Char :=
  field.flatMap fun c => if c = '"' then ['"', '"'] else [c]

/-- The field can stand without quotes: nothing in it ends it, and it does not look quoted. -/
def IsBare (field : List Char) : Prop :=
  (∀ c ∈ field, c ≠ ',' ∧ isLineBreak c = false) ∧ field.head? ≠ some '"'

instance (field : List Char) : Decidable (IsBare field) :=
  decidable_of_iff ((field.all fun c => c != ',' && !isLineBreak c) = true ∧
    field.head? ≠ some '"') (by simp [IsBare])

inductive FieldText (field : String) : List Char → Prop where
  | quoted : FieldText field ('"' :: (doubled field.toList ++ ['"']))
  | bare (hbare : IsBare field.toList) : FieldText field field.toList

inductive FieldsText : Row → List Char → Prop where
  | one {field : String} {text : List Char} (hfield : FieldText field text) :
      FieldsText [field] text
  | more {field : String} {fields : Row} {text rest : List Char} (hfield : FieldText field text)
      (hfields : FieldsText fields rest) : FieldsText (field :: fields) (text ++ ',' :: rest)

/-- An empty field that is all of its row must be quoted, or else there would be no row. -/
def RowText (row : Row) (text : List Char) : Prop :=
  FieldsText row text ∧ (row = [""] → text = ['"', '"'])

/-- Line breaks and nothing else. -/
def AreBreaks (text : List Char) : Prop := ∀ c ∈ text, isLineBreak c = true

instance (text : List Char) : Decidable (AreBreaks text) :=
  decidable_of_iff (text.all isLineBreak = true) List.all_eq_true

inductive RowsText : Table → List Char → Prop where
  | none : RowsText [] []
  | last {row : Row} {text : List Char} (hrow : RowText row text) : RowsText [row] text
  | row {row : Row} {rows : Table} {text breaks rest : List Char} (hrow : RowText row text)
      (hsome : breaks ≠ []) (hbreaks : AreBreaks breaks) (hrows : RowsText rows rest) :
      RowsText (row :: rows) (text ++ (breaks ++ rest))

/-- A written form of a table; line breaks may come first. -/
inductive TableText (table : Table) : List Char → Prop where
  | mk {breaks text : List Char} (hbreaks : AreBreaks breaks) (hrows : RowsText table text) :
      TableText table (breaks ++ text)

/-! ## Reading a field -/

namespace Reader

variable {rows : Array Row} {fields : Array String}

/-- The reader is in the middle of a row. -/
def within (rows : Array Row) (row : OpenRow) : Reader := ⟨rows, some row⟩

/-- The reader is between two rows. -/
def between (rows : Array Row) : Reader := ⟨rows, none⟩

theorem push_append (s : String) (c : Char) (cs : List Char) :
    s.push c ++ String.ofList cs = s ++ String.ofList (c :: cs) := by
  apply String.toList_inj.1
  simp

variable (rows fields) in
theorem read_doubled (cs : List Char) (s : String) :
    (doubled cs).foldl step (within rows ⟨fields, s, .quoted⟩) =
      within rows ⟨fields, s ++ String.ofList cs, .quoted⟩ := by
  induction cs generalizing s with
  | nil => simp [doubled]
  | cons c rest ih =>
    have hrest := ih (s.push c)
    rw [push_append] at hrest
    by_cases hquote : c = '"'
    · -- two quotes: the first might have closed the field, the second says that it did not
      subst hquote
      exact hrest
    · have hcons : doubled (c :: rest) = c :: doubled rest := by simp [doubled, hquote]
      have hstep : step (within rows ⟨fields, s, .quoted⟩) c =
          within rows ⟨fields, s.push c, .quoted⟩ := by
        simp [step, within, stepRow, hquote, OpenRow.add]
      rw [hcons, List.foldl_cons, hstep]
      exact hrest

theorem read_plain {cs : List Char} (hcs : ∀ c ∈ cs, c ≠ ',' ∧ isLineBreak c = false)
    (s : String) :
    cs.foldl step (within rows ⟨fields, s, .plain⟩) =
      within rows ⟨fields, s ++ String.ofList cs, .plain⟩ := by
  induction cs generalizing s with
  | nil => simp
  | cons c rest ih =>
    rcases List.forall_mem_cons.1 hcs with ⟨⟨hcomma, hbreak⟩, hrest⟩
    have hstep : step (within rows ⟨fields, s, .plain⟩) c =
        within rows ⟨fields, s.push c, .plain⟩ := by
      simp [step, within, stepRow, hcomma, hbreak, OpenRow.add]
    rw [List.foldl_cons, hstep, ih hrest, push_append]

variable (rows fields) in
/-- After a written field the reader holds that field, and no quote is open. -/
theorem read_field {field : String} {text : List Char} (h : FieldText field text) :
    ∃ mode, mode ≠ .quoted ∧
      text.foldl step (within rows ⟨fields, "", .fresh⟩) = within rows ⟨fields, field, mode⟩ := by
  cases h with
  | quoted =>
    refine ⟨.closing, by decide, ?_⟩
    have hopen : step (within rows ⟨fields, "", .fresh⟩) '"' =
        within rows ⟨fields, "", .quoted⟩ := rfl
    have hinside := read_doubled rows fields field.toList ""
    rw [List.foldl_cons, hopen, List.foldl_append, hinside]
    simp [step, within, stepRow]
  | bare hbare =>
    rcases hbare with ⟨hplain, hfirst⟩
    cases hfield : field.toList with
    | nil =>
      have hempty : field = "" := by simpa using hfield
      exact ⟨.fresh, by decide, by rw [hempty]; rfl⟩
    | cons c rest =>
      rw [hfield] at hplain hfirst
      rcases List.forall_mem_cons.1 hplain with ⟨⟨hcomma, hbreak⟩, hrest⟩
      have hquote : c ≠ '"' := by simpa using hfirst
      have hstep : step (within rows ⟨fields, "", .fresh⟩) c =
          within rows ⟨fields, "".push c, .plain⟩ := by
        simp [step, within, stepRow, hcomma, hbreak, hquote, OpenRow.add]
      have hall : "".push c ++ String.ofList rest = field := by
        apply String.toList_inj.1
        simp [hfield]
      refine ⟨.plain, by decide, ?_⟩
      rw [List.foldl_cons, hstep, read_plain hrest, hall]

/-! ## Reading rows -/

/-- Unless a quote is open, a comma ends the field. -/
theorem step_comma {row : OpenRow} (hmode : row.mode ≠ .quoted) :
    step (within rows row) ',' = within rows row.nextField := by
  rcases row with ⟨fields, field, mode⟩
  cases mode with
  | quoted => exact absurd rfl hmode
  | _ => rfl

/-- Unless a quote is open, a line break ends the row. -/
theorem step_break {row : OpenRow} {c : Char} (hmode : row.mode ≠ .quoted)
    (hbreak : isLineBreak c = true) : step (within rows row) c = between (rows.push row.close) := by
  have hcomma : c ≠ ',' := by
    rintro rfl
    cases hbreak
  rcases row with ⟨fields, field, mode⟩
  cases mode with
  | quoted => exact absurd rfl hmode
  | _ => simp [step, within, stepRow, hcomma, hbreak, endRow, between]

theorem read_breaks {text : List Char} (h : AreBreaks text) :
    text.foldl step (between rows) = between rows := by
  induction text with
  | nil => rfl
  | cons c rest ih =>
    rcases List.forall_mem_cons.1 h with ⟨hbreak, hrest⟩
    have hstep : step (between rows) c = between rows := by simp [step, between, hbreak]
    rw [List.foldl_cons, hstep]
    exact ih hrest

variable (rows fields) in
/-- After written fields the reader holds a row that would close with them. -/
theorem read_fields {row : Row} {text : List Char} (h : FieldsText row text) :
    ∃ last : OpenRow, last.mode ≠ .quoted ∧ last.close = fields.toList ++ row ∧
      text.foldl step (within rows ⟨fields, "", .fresh⟩) = within rows last := by
  induction h generalizing fields with
  | one hfield =>
    rcases read_field rows fields hfield with ⟨mode, hmode, hread⟩
    exact ⟨_, hmode, by simp [OpenRow.close], hread⟩
  | @more field others text rest hfield _ ih =>
    rcases read_field rows fields hfield with ⟨mode, hmode, hread⟩
    rcases ih (fields.push field) with ⟨last, hlast, hclose, hrest⟩
    have hcomma : step (within rows ⟨fields, field, mode⟩) ',' =
        within rows ⟨fields.push field, "", .fresh⟩ := step_comma hmode
    refine ⟨last, hlast, by simpa using hclose, ?_⟩
    rw [List.foldl_append, hread, List.foldl_cons, hcomma]
    exact hrest

/-- A written row starts with a character that starts a row. -/
theorem head_of_rowText {row : Row} {text : List Char} (h : RowText row text) :
    ∃ c rest, text = c :: rest ∧ isLineBreak c = false := by
  have hfield : ∀ {field : String} {text : List Char}, FieldText field text →
      (field = "" ∧ text = []) ∨ ∃ c rest, text = c :: rest ∧ isLineBreak c = false := by
    intro field text hfield
    cases hfield with
    | quoted => exact .inr ⟨'"', _, rfl, rfl⟩
    | bare hbare =>
      cases hchars : field.toList with
      | nil => exact .inl ⟨by simpa using hchars, rfl⟩
      | cons c rest => exact .inr ⟨c, rest, rfl, (hbare.1 c (by simp [hchars])).2⟩
  rcases h with ⟨hfields, halone⟩
  cases hfields with
  | @one field text hone =>
    rcases hfield hone with ⟨rfl, rfl⟩ | hhead
    · -- a field that is empty and alone has its quotes
      cases halone rfl
    · exact hhead
  | @more field fields text rest hone _ =>
    rcases hfield hone with ⟨_, rfl⟩ | ⟨c, others, rfl, hbreak⟩
    · exact ⟨',', rest, rfl, rfl⟩
    · exact ⟨c, others ++ ',' :: rest, rfl, hbreak⟩

variable (rows) in
theorem read_row {row : Row} {text : List Char} (h : RowText row text) :
    ∃ last : OpenRow, last.mode ≠ .quoted ∧ last.close = row ∧
      text.foldl step (between rows) = within rows last := by
  rcases head_of_rowText h with ⟨c, rest, rfl, hbreak⟩
  rcases read_fields rows #[] h.1 with ⟨last, hmode, hclose, hread⟩
  -- between rows, the first character of a row is read as within a row that is still empty
  have hstart : step (between rows) c = step (within rows .start) c := by
    simp [step, between, within, hbreak, stepRow]
  refine ⟨last, hmode, by simpa using hclose, ?_⟩
  rw [List.foldl_cons, hstart]
  exact hread

variable (rows) in
/-- After written rows the text may end: the rows are then those before and these. -/
theorem read_rows {table : Table} {text : List Char} (h : RowsText table text) :
    (text.foldl step (between rows)).finish = rows.toList ++ table := by
  induction h generalizing rows with
  | none => simp [between, finish]
  | last hrow =>
    rcases read_row rows hrow with ⟨last, _, hclose, hread⟩
    rw [hread]
    simp [within, finish, endRow, hclose]
  | @row row others text breaks rest hrow hsome hbreaks _ ih =>
    rcases read_row rows hrow with ⟨last, hmode, hclose, hread⟩
    cases breaks with
    | nil => exact absurd rfl hsome
    | cons c breaks =>
      rcases List.forall_mem_cons.1 hbreaks with ⟨hbreak, hmore⟩
      -- the first line break ends the row, and the others say nothing
      have hend : step (within rows last) c = between (rows.push row) := by
        rw [step_break hmode hbreak, hclose]
      calc (List.foldl step (between rows) (text ++ (c :: breaks ++ rest))).finish
          = (rest.foldl step (breaks.foldl step (between (rows.push row)))).finish := by
            rw [List.foldl_append, hread, List.foldl_append, List.foldl_cons, hend]
        _ = (rest.foldl step (between (rows.push row))).finish := by rw [read_breaks hmore]
        _ = (rows.push row).toList ++ others := ih _
        _ = rows.toList ++ row :: others := by simp

end Reader

/-! ## Reading a table -/

theorem isCrdyboot_iff (table : Table) :
    table.isCrdyboot = true ↔
      ∃ first second rest, table = first :: second :: rest ∧ second.head? = some "crdyboot" := by
  rcases table with _ | ⟨first, _ | ⟨second, rest⟩⟩
  · simp [Table.isCrdyboot]
  · simp [Table.isCrdyboot]
  · have hsecond : Table.isCrdyboot (first :: second :: rest) = true ↔
        second.head? = some "crdyboot" := by
      simp [Table.isCrdyboot, Row.component?, crdyboot]
    refine ⟨fun h => ⟨first, second, rest, rfl, hsecond.1 h⟩, ?_⟩
    rintro ⟨_, _, _, ⟨⟩, h⟩
    exact hsecond.2 h

/--
Reading undoes every written form of a table that does not start with a mark.  So the table is that
of a crdyboot build exactly if there is a second row and its first field says so, however it is
written.
-/
theorem parse_tableText {table : Table} {text : String} (h : TableText table text.toList)
    (hmark : text.toList.head? ≠ some byteOrderMark) :
    Table.parse text = table ∧
      ((Table.parse text).isCrdyboot = true ↔ ∃ first second rest,
        table = first :: second :: rest ∧ second.head? = some "crdyboot") := by
  have hdrop : dropMark text.toList = text.toList := by
    cases hchars : text.toList with
    | nil => rfl
    | cons c rest =>
      have hc : c ≠ byteOrderMark := by simpa [hchars] using hmark
      simp [dropMark, hc]
  have hread : Table.parse text = table := by
    rw [Table.parse, hdrop]
    generalize text.toList = chars at h
    cases h with
    | mk hbreaks hrows =>
      rw [List.foldl_append]
      show (List.foldl _ (List.foldl _ (Reader.between #[]) _) _).finish = _
      rw [Reader.read_breaks hbreaks, Reader.read_rows #[] hrows]
      rfl
  exact ⟨hread, by rw [hread]; exact isCrdyboot_iff table⟩

/-- Quotes that are needed and that are not, blank lines, all line breaks, and no last one. -/
theorem parse_tableText_mixed :
    let table : Table := [["sbat", "1", "a, \"b\"\n"], ["crdyboot", "", "c\"d"], [""]]
    let text := "\r\nsbat,1,\"a, \"\"b\"\"\n\"\r\n\n\"crdyboot\",,c\"d\r\"\""
    TableText table text.toList ∧ text.toList.head? ≠ some byteOrderMark ∧
      Table.parse text = table ∧
      ((Table.parse text).isCrdyboot = true ↔ ∃ first second rest,
        table = first :: second :: rest ∧ second.head? = some "crdyboot") := by
  intro table text
  have hheader : RowText ["sbat", "1", "a, \"b\"\n"] _ :=
    ⟨.more (.bare (by decide)) (.more (.bare (by decide)) (.one .quoted)), by decide⟩
  have hcomponent : RowText ["crdyboot", "", "c\"d"] _ :=
    ⟨.more .quoted (.more (.bare (by decide)) (.one (.bare (by decide)))), by decide⟩
  have hempty : RowText [""] _ := ⟨.one .quoted, fun _ => rfl⟩
  have hfirst : AreBreaks ['\r', '\n'] := by decide
  have hblank : AreBreaks ['\r', '\n', '\n'] := by decide
  have hreturn : AreBreaks ['\r'] := by decide
  have hrows : RowsText table _ :=
    .row hheader (by decide) hblank (.row hcomponent (by decide) hreturn (.last hempty))
  have htext : TableText table text.toList := by
    have hwritten := TableText.mk hfirst hrows
    simpa [doubled, text] using hwritten
  have hmark : text.toList.head? ≠ some byteOrderMark := by decide
  exact ⟨htext, hmark, parse_tableText htext hmark⟩

end Sbat
end BootSigning
