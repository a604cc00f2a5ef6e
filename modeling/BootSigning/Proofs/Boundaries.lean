import BootSigning.Proofs.Rendering

/-!
# Boundaries — a table and what is written after it

Once a row has ended, the reader remembers nothing of it but the row.  So a text of whole rows is
read the same whatever comes after it, and what comes after it is read as if it stood alone.

* `Reader.of`: the reader at the end of a text;
* `Reader.behind`: a reader with rows before its own, which it never looks at again;
* `parse_break_iff`: after a line break, another one changes the table only within quotes.

`parse_append` says that the table of two texts is that of the first followed by that of the
second, if the first ends with a row.
-/

namespace BootSigning
namespace Sbat

/-! ## Rows before the reader's own -/

namespace Reader

/-- The reader at the end of a text. -/
def of (text : String) : Reader := (dropMark text.toList).foldl step start

/-- A reader with rows before its own. -/
def behind (before : Table) (r : Reader) : Reader := ⟨before.toArray ++ r.rows, r.current⟩

section

variable (before : Table) (r : Reader)

theorem stepRow_behind (row : OpenRow) (c : Char) :
    stepRow (r.behind before) row c = (stepRow r row c).behind before := by
  rcases row with ⟨fields, field, mode⟩
  -- whatever is read, a row is at most added to those that are there
  cases mode <;> simp only [stepRow, behind, endRow] <;> grind

theorem step_behind (c : Char) : step (r.behind before) c = (step r c).behind before := by
  rcases r with ⟨rows, _ | row⟩
  · simp only [step, behind]
    split
    · rfl
    · exact stepRow_behind before ⟨rows, none⟩ .start c
  · exact stepRow_behind before ⟨rows, some row⟩ row c

theorem foldl_behind (text : List Char) :
    text.foldl step (r.behind before) = (text.foldl step r).behind before := by
  induction text generalizing r with
  | nil => rfl
  | cons c rest ih => rw [List.foldl_cons, step_behind, ih, List.foldl_cons]

theorem finish_behind : (r.behind before).finish = before ++ r.finish := by
  rcases r with ⟨rows, _ | row⟩ <;> simp [finish, behind, endRow]

/-- Between two rows, the reader is as at the start but for the rows that it has. -/
theorem eq_behind_start (h : r.current = none) : r = start.behind r.finish := by
  rcases r with ⟨rows, _ | row⟩
  · simp [behind, start, finish]
  · cases h

end

/-! ## After a line break -/

/-- After a line break the reader is between two rows, or within quotes. -/
theorem current_of_break (r : Reader) {c : Char} (hbreak : isLineBreak c = true) :
    (step r c).current = none ∨ ∃ row, step r c = within r.rows row ∧ row.mode = .quoted := by
  rcases r with ⟨rows, _ | row⟩
  · simp [step, hbreak]
  · by_cases hmode : row.mode = .quoted
    · have hquote : c ≠ '"' := by
        rintro rfl
        cases hbreak
      refine .inr ⟨row.add c .quoted, ?_, rfl⟩
      simp [step, stepRow, within, hmode, hquote]
    · have hended : step (within rows row) c = between (rows.push row.close) :=
        step_break hmode hbreak
      exact .inl (congrArg Reader.current hended)

/-- Within quotes a line break is text, so it changes what the row would close with. -/
theorem finish_quoted_ne (rows : Array Row) {row : OpenRow} (hmode : row.mode = .quoted) :
    (step (within rows row) '\n').finish ≠ (within rows row).finish := by
  have hstep : step (within rows row) '\n' = within rows (row.add '\n' .quoted) := by
    simp [step, stepRow, within, hmode]
  rw [hstep]
  intro h
  have hfield : row.field.push '\n' = row.field := by
    simpa [within, finish, endRow, OpenRow.close, OpenRow.add] using h
  have hlength := congrArg String.length hfield
  simp at hlength

end Reader

/-! ## Texts one after another -/

/-- The text ends with a line break. -/
def EndsLine (text : String) : Prop := ∃ c ∈ text.toList.getLast?, isLineBreak c = true

section

variable {s : String}

theorem EndsLine.ne_nil (h : EndsLine s) : s.toList ≠ [] := by
  rcases h with ⟨c, hc, _⟩
  rintro hnil
  simp [hnil] at hc

theorem dropMark_of_head? {text : List Char} (h : text.head? ≠ some byteOrderMark) :
    dropMark text = text := by
  cases text with
  | nil => rfl
  | cons c rest =>
    have hc : c ≠ byteOrderMark := by simpa using h
    simp [dropMark, hc]

/-- A mark can only start a text that says nothing yet. -/
theorem dropMark_append {text : List Char} (htext : text ≠ []) (more : List Char) :
    dropMark (text ++ more) = dropMark text ++ more := by
  cases text with
  | nil => exact absurd rfl htext
  | cons c rest =>
    simp only [List.cons_append, dropMark]
    split <;> rfl

theorem Reader.of_append (htext : s.toList ≠ []) (t : String) :
    Reader.of (s ++ t) = t.toList.foldl Reader.step (Reader.of s) := by
  rw [Reader.of, String.toList_append, dropMark_append htext, List.foldl_append, Reader.of]

theorem Reader.of_endsLine (h : EndsLine s) :
    (Reader.of s).current = none ∨
      ∃ rows row, Reader.of s = Reader.within rows row ∧ row.mode = .quoted := by
  rcases h with ⟨c, hc, hbreak⟩
  rcases List.getLast?_eq_some_iff.1 hc with ⟨before, hbefore⟩
  rw [Reader.of, hbefore]
  cases before with
  | nil =>
    -- a line break is no mark
    have hmark : c ≠ byteOrderMark := by
      rintro rfl
      exact absurd hbreak (by decide)
    simp [dropMark, hmark, Reader.step, Reader.start, hbreak]
  | cons first rest =>
    rw [dropMark_append (List.cons_ne_nil first rest), List.foldl_append]
    rcases Reader.current_of_break
      ((dropMark (first :: rest)).foldl Reader.step Reader.start) hbreak with hnone | hquoted
    · exact .inl hnone
    · exact .inr ⟨_, hquoted⟩

/-- After a line break, another one changes the table exactly if a quote is open. -/
theorem parse_break_iff (h : EndsLine s) :
    Table.parse (s ++ "\n") = Table.parse s ↔ (Reader.of s).current = none := by
  have hparse : ∀ text, Table.parse text = (Reader.of text).finish := fun _ => rfl
  have hmore : Reader.of (s ++ "\n") = Reader.step (Reader.of s) '\n' :=
    Reader.of_append h.ne_nil "\n"
  rw [hparse, hparse, hmore]
  constructor
  · intro hsame
    rcases Reader.of_endsLine h with hnone | ⟨rows, row, hreader, hmode⟩
    · exact hnone
    · rw [hreader] at hsame
      exact absurd hsame (Reader.finish_quoted_ne rows hmode)
  · intro hnone
    have hstep : Reader.step (Reader.of s) '\n' = Reader.of s := by
      simp [Reader.step, hnone, isLineBreak]
    rw [hstep]

/-- What is written after whole rows is read by itself, except that a mark is text there. -/
theorem parse_append_rows (htext : s.toList ≠ []) (hclosed : (Reader.of s).current = none)
    (t : String) :
    Table.parse (s ++ t) =
      Table.parse s ++ (t.toList.foldl Reader.step Reader.start).finish := by
  have hstart : Reader.of s = Reader.start.behind (Table.parse s) :=
    Reader.eq_behind_start _ hclosed
  calc Table.parse (s ++ t)
      = (t.toList.foldl Reader.step (Reader.of s)).finish := by
        rw [← Reader.of_append htext]
        rfl
    _ = ((t.toList.foldl Reader.step Reader.start).behind (Table.parse s)).finish := by
        rw [hstart, Reader.foldl_behind]
    _ = Table.parse s ++ (t.toList.foldl Reader.step Reader.start).finish :=
        Reader.finish_behind _ _

/-- The verdict on a table is that on its first two rows. -/
theorem isCrdyboot_append {table : Table} (h : 2 ≤ table.length) (more : Table) :
    Table.isCrdyboot (table ++ more) = table.isCrdyboot := by
  rcases table with _ | ⟨first, _ | ⟨second, rest⟩⟩
  · simp at h
  · simp at h
  · rfl

end

/--
A text that ends with a row keeps its table, whatever is written after it: the table of what comes
after follows, unless that starts with a mark.  So once there are two rows, nothing can change the
verdict on them.
-/
theorem parse_append {s : String} (hend : EndsLine s)
    (hclosed : Table.parse (s ++ "\n") = Table.parse s) (t : String) :
    (t.toList.head? ≠ some byteOrderMark →
      Table.parse (s ++ t) = Table.parse s ++ Table.parse t) ∧
    (2 ≤ (Table.parse s).length →
      (Table.parse (s ++ t)).isCrdyboot = (Table.parse s).isCrdyboot) := by
  have hrows := parse_append_rows hend.ne_nil ((parse_break_iff hend).1 hclosed) t
  refine ⟨fun hmark => ?_, fun htwo => ?_⟩
  · rw [hrows, Table.parse, Table.parse, dropMark_of_head? hmark]
  · rw [hrows]
    exact isCrdyboot_append htwo _

/-- A line break in two halves, with a stray quote before it and an open one after it. -/
theorem parse_append_split_break :
    let s := "sbat,1\"\r\n\"crdyboot\",1\r"
    let t := "\n\"x\"\"y,\r\n\"z\"\u0000,\"open"
    EndsLine s ∧ Table.parse (s ++ "\n") = Table.parse s ∧
      t.toList.head? ≠ some byteOrderMark ∧ 2 ≤ (Table.parse s).length ∧
      Table.parse (s ++ t) = Table.parse s ++ Table.parse t ∧
      (Table.parse (s ++ t)).isCrdyboot = true := by
  intro s t
  have hend : EndsLine s := ⟨'\r', by decide, rfl⟩
  have hclosed : Table.parse (s ++ "\n") = Table.parse s := by decide +kernel
  have hmark : t.toList.head? ≠ some byteOrderMark := by decide
  have htwo : 2 ≤ (Table.parse s).length := by decide +kernel
  have hcrdyboot : (Table.parse s).isCrdyboot = true := by decide +kernel
  rcases parse_append hend hclosed t with ⟨hrows, hverdict⟩
  exact ⟨hend, hclosed, hmark, htwo, hrows hmark, (hverdict htwo).trans hcrdyboot⟩

end Sbat
end BootSigning
