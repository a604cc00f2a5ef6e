import BootSigning.Proofs.Boundaries
import BootSigning.Proofs.Bytewise

/-!
# Conservation — reading loses nothing and invents nothing

Any text is read as a table, however its quotes stand.  Each character goes to the end of the field
that is being read, or it is a mark (a comma, a quote or a line break) and goes nowhere.

* `Outcome`: what one character can do to the row that is being read;
* `Thinned`: a text with some of its marks left out;
* `thinned_foldl`: what the fields hold grows by such a part of what is read.

`parse_conserves` puts it together for the table of a text.
-/

namespace BootSigning
namespace Sbat

/-! ## One character -/

namespace Reader

/-- What a character can do to the row that is being read. -/
inductive Outcome (rows : Array Row) (row : OpenRow) (c : Char) : Reader → Prop where
  | kept (mode : FieldMode) : Outcome rows row c (within rows (row.add c mode))
  | quote (hquote : c = '"') (mode : FieldMode) :
      Outcome rows row c (within rows { row with mode := mode })
  | comma (hcomma : c = ',') : Outcome rows row c (within rows row.nextField)
  | ended (hbreak : isLineBreak c = true) : Outcome rows row c (between (rows.push row.close))

theorem outcome_stepRow (r : Reader) (row : OpenRow) (c : Char) :
    Outcome r.rows row c (stepRow r row c) := by
  by_cases hquote : c = '"'
  · rcases row with ⟨fields, field, mode⟩
    subst hquote
    cases mode with
    | fresh => exact .quote rfl .quoted
    | plain => exact .kept .plain
    | quoted => exact .quote rfl .closing
    | closing => exact .kept .quoted
  by_cases hmode : row.mode = .quoted
  · have hstep : stepRow r row c = within r.rows (row.add c .quoted) := by
      simp [stepRow, hmode, hquote, within]
    exact hstep ▸ .kept .quoted
  by_cases hcomma : c = ','
  · have hstep : stepRow r row c = within r.rows row.nextField := by
      simp [stepRow, hcomma, within]
    exact hstep ▸ .comma hcomma
  by_cases hbreak : isLineBreak c = true
  · have hstep : stepRow r row c = between (r.rows.push row.close) := by
      simp [stepRow, hcomma, hbreak, endRow, between]
    exact hstep ▸ .ended hbreak
  · have hstep : stepRow r row c = within r.rows (row.add c .plain) := by
      simp [stepRow, hcomma, hbreak, hquote, within]
    exact hstep ▸ .kept .plain

/-- A line break between two rows does nothing; all else goes to the row that is being read. -/
theorem step_cases (r : Reader) (c : Char) :
    (isLineBreak c = true ∧ step r c = r) ∨ Outcome r.rows r.openRow c (step r c) := by
  rcases r with ⟨rows, _ | row⟩
  · by_cases hbreak : isLineBreak c = true
    · exact .inl ⟨hbreak, by simp [step, hbreak]⟩
    · have hstep : step ⟨rows, none⟩ c = stepRow ⟨rows, none⟩ .start c := by simp [step, hbreak]
      exact .inr (hstep ▸ outcome_stepRow _ _ c)
  · exact .inr (outcome_stepRow ⟨rows, some row⟩ row c)

end Reader

/-! ## Texts without some of their marks -/

/-- All of a text in its order, except that some of its marks may be missing. -/
structure Thinned (text kept : List Char) : Prop where
  sublist : kept.Sublist text
  same : kept.filter (!isMark ·) = text.filter (!isMark ·)

namespace Thinned

theorem refl (text : List Char) : Thinned text text := ⟨.refl text, rfl⟩

theorem dropped {c : Char} (hc : isMark c = true) : Thinned [c] [] :=
  ⟨List.nil_sublist [c], by simp [hc]⟩

theorem append {first second kept more : List Char} (hfirst : Thinned first kept)
    (hsecond : Thinned second more) : Thinned (first ++ second) (kept ++ more) :=
  ⟨hfirst.sublist.append hsecond.sublist, by
    rw [List.filter_append, List.filter_append, hfirst.same, hsecond.same]⟩

end Thinned

/-! ## What the fields hold -/

/-- The characters of all fields of all rows, in order. -/
def Table.chars (table : Table) : List Char := table.flatten.flatMap String.toList

namespace Reader

variable (r : Reader)

/-- The characters of all fields so far. -/
def held : List Char := Table.chars r.finish

theorem held_within (rows : Array Row) (row : OpenRow) :
    (within rows row).held = Table.chars (rows.toList ++ [row.close]) := by
  simp [held, within, finish, endRow]

theorem held_eq : r.held = (within r.rows r.openRow).held := by
  rcases r with ⟨rows, _ | row⟩
  · simp [held, finish, within, endRow, openRow, OpenRow.start, OpenRow.close, Table.chars]
  · rfl

theorem held_step (c : Char) : ∃ kept, (step r c).held = r.held ++ kept ∧ Thinned [c] kept := by
  have hdropped {next : Reader} (hc : isMark c = true) (hheld : next.held = r.held) :
      ∃ kept, next.held = r.held ++ kept ∧ Thinned [c] kept :=
    ⟨[], by rw [hheld, List.append_nil], .dropped hc⟩
  rcases r.step_cases c with ⟨hbreak, hstep⟩ | houtcome
  · rw [hstep]
    exact hdropped (by simp [isMark, hbreak]) rfl
  · rw [held_eq r] at hdropped ⊢
    generalize r.openRow = row at houtcome hdropped ⊢
    generalize step r c = next at houtcome ⊢
    cases houtcome with
    | kept mode =>
      refine ⟨[c], ?_, .refl [c]⟩
      simp [held_within, Table.chars, OpenRow.add, OpenRow.close]
    | quote hquote mode => exact hdropped (by simp [isMark, hquote]) rfl
    | comma hcomma =>
      refine hdropped (by simp [isMark, hcomma]) ?_
      simp [held_within, Table.chars, OpenRow.nextField, OpenRow.close]
    | ended hbreak =>
      refine hdropped (by simp [isMark, hbreak]) ?_
      rw [held_within]
      simp [held, between, finish]

theorem held_foldl (text : List Char) :
    ∃ kept, (text.foldl step r).held = r.held ++ kept ∧ Thinned text kept := by
  induction text generalizing r with
  | nil => exact ⟨[], (List.append_nil _).symm, .refl []⟩
  | cons c rest ih =>
    rcases r.held_step c with ⟨first, hfirst, hthin⟩
    rcases ih (step r c) with ⟨more, hmore, hrest⟩
    refine ⟨first ++ more, ?_, hthin.append hrest⟩
    rw [List.foldl_cons, hmore, hfirst, List.append_assoc]

/-! ## Rows -/

/-- No finished row is without fields. -/
def RowsFilled : Prop := ∀ row ∈ r.rows, row ≠ []

theorem close_ne_nil (row : OpenRow) : row.close ≠ [] := by simp [OpenRow.close]

variable {r}

theorem RowsFilled.push (h : r.RowsFilled) (row : OpenRow) :
    (between (r.rows.push row.close)).RowsFilled := by
  intro other hother
  rcases Array.mem_push.1 hother with hold | rfl
  · exact h other hold
  · exact close_ne_nil row

theorem RowsFilled.step (h : r.RowsFilled) (c : Char) : (step r c).RowsFilled := by
  rcases r.step_cases c with ⟨-, hstep⟩ | houtcome
  · rwa [hstep]
  · generalize Reader.step r c = next at houtcome ⊢
    cases houtcome with
    | kept | quote | comma => exact h
    | ended => exact h.push r.openRow

theorem RowsFilled.foldl (h : r.RowsFilled) (text : List Char) :
    (text.foldl Reader.step r).RowsFilled := by
  induction text generalizing r with
  | nil => exact h
  | cons c rest ih => exact ih (h.step c)

theorem RowsFilled.finish (h : r.RowsFilled) {row : Row} (hrow : row ∈ r.finish) : row ≠ [] := by
  rcases r with ⟨rows, _ | last⟩
  · exact h row (by simpa [Reader.finish] using hrow)
  · exact h.push last row (by simpa [Reader.finish, endRow, between] using hrow)

end Reader

/-! ## The table of a text -/

theorem component?_of_mem_parse {text : String} {row : Row} (hrow : row ∈ Table.parse text) :
    ∃ name, row.component? = some name := by
  have hstart : Reader.start.RowsFilled := fun _ h => absurd h (by simp [Reader.start])
  have hfilled := (hstart.foldl (dropMark text.toList)).finish hrow
  cases row with
  | nil => exact absurd rfl hfilled
  | cons name rest => exact ⟨name, rfl⟩

theorem thinned_parse (text : String) : Thinned (dropMark text.toList) (Table.parse text).chars := by
  rcases Reader.start.held_foldl (dropMark text.toList) with ⟨kept, hheld, hthin⟩
  have hchars : (Table.parse text).chars = kept := hheld
  rwa [hchars]

/--
Whatever a text looks like, each row of its table has a component, and the fields hold the text but
for commas, quotes and line breaks, and a mark at its start.  Read as bytes the text has the same
rows, none of them malformed, so no row is lost behind one.
-/
theorem parse_conserves (text : String) :
    (∀ row ∈ Table.parse text, ∃ name, row.component? = some name) ∧
    (text.toList.head? ≠ some byteOrderMark →
      (Table.parse text).chars.Sublist text.toList ∧
      (Table.parse text).chars.filter (!isMark ·) = text.toList.filter (!isMark ·)) ∧
    (∀ row ∈ byteRows (Utf8.encode text), ∃ fields, row.row? = some fields) ∧
    tableOf (byteRows (Utf8.encode text)) = Table.parse text := by
  refine ⟨fun row => component?_of_mem_parse, fun hmark => ?_, fun row hrow => ?_, ?_⟩
  · have hthin := thinned_parse text
    rw [dropMark_of_head? hmark] at hthin
    exact ⟨hthin.sublist, hthin.same⟩
  · rw [byteRows_encode] at hrow
    rcases List.mem_map.1 hrow with ⟨fields, -, rfl⟩
    exact ⟨fields, row?_encode fields⟩
  · rw [byteRows_encode, tableOf_encode]

/-- Text after a closing quote, stray quotes, a quote that is never closed, and other letters. -/
theorem parse_conserves_malformed :
    let text := "\"sbat\"x\"\"\r,é\"\n\n,\"sig,\nned \"\"👍"
    text.toList.head? ≠ some byteOrderMark ∧
      (Table.parse text).chars.filter (!isMark ·) = "sbatxésigned 👍".toList ∧
      tableOf (byteRows (Utf8.encode text)) = Table.parse text := by
  intro text
  have hmark : text.toList.head? ≠ some byteOrderMark := by decide
  rcases parse_conserves text with ⟨-, hthin, -, hbytes⟩
  refine ⟨hmark, ?_, hbytes⟩
  rw [(hthin hmark).2]
  decide

end Sbat
end BootSigning
