import BootSigning.Proofs.Lossy
import BootSigning.Proofs.Operations
import Mathlib.Data.List.TakeWhile

/-!
# FailureText — what is said of a call that failed

A failed call is reported by what the program wrote, without blanks around it, or else by how the
program ended; in either case there is something to read.

* `Text.Trims`, `Text.trims_iff`: a text between its blank ends;
* `Text.opens`, `Text.closes`: texts that start and end with something to read, as the words for
  statuses (`opens_status`, `closes_status`) do;
* `failureMessage_eq`: where the text of a failure comes from.

`check_explains` says when a call failed, and in what words.
-/

namespace BootSigning
namespace Text

/-! ## Trimming -/

/-- The text has no blank at its beginning or its end. -/
structure Tight (text : List Char) : Prop where
  first : ∀ c ∈ text.head?, isBlank c = false
  last : ∀ c ∈ text.getLast?, isBlank c = false

/-- The text without its longest blank beginning and its longest blank end is `inner`. -/
structure Trims (text inner : List Char) : Prop extends Tight inner where
  blankEnds : ∃ before after, text = before ++ inner ++ after ∧
    (∀ c ∈ before, isBlank c = true) ∧ ∀ c ∈ after, isBlank c = true

theorem head?_dropWhile_blank (text : List Char) :
    ∀ c ∈ (text.dropWhile isBlank).head?, isBlank c = false := by
  intro c hc
  have hhead := List.head?_dropWhile_not isBlank text
  rwa [Option.mem_def.1 hc] at hhead

theorem dropWhile_blank_eq_self {text : List Char} (h : ∀ c ∈ text.head?, isBlank c = false) :
    text.dropWhile isBlank = text := by
  cases text with
  | nil => rfl
  | cons c rest => exact List.dropWhile_cons_of_neg (by rw [h c rfl]; exact Bool.false_ne_true)

theorem trims_trimChars (text : List Char) : Trims text (trimChars text) := by
  generalize hrest : text.dropWhile isBlank = rest
  have htext : text = text.takeWhile isBlank ++ rest := by
    rw [← hrest, List.takeWhile_append_dropWhile]
  have hinner : rest = trimChars text ++ (rest.reverse.takeWhile isBlank).reverse := by
    rw [trimChars, hrest, ← List.reverse_append, List.takeWhile_append_dropWhile,
      List.reverse_reverse]
  refine ⟨⟨?_, ?_⟩, text.takeWhile isBlank, (rest.reverse.takeWhile isBlank).reverse, ?_, ?_, ?_⟩
  · intro c hc
    have hhead : c ∈ rest.head? := by
      rw [hinner]
      exact List.mem_head?_append_of_mem_head? hc
    rw [← hrest] at hhead
    exact head?_dropWhile_blank text c hhead
  · intro c hc
    rw [trimChars, List.getLast?_reverse] at hc
    exact head?_dropWhile_blank _ c hc
  · rw [List.append_assoc, ← hinner]
    exact htext
  · exact fun c hc => List.mem_takeWhile_imp hc
  · exact fun c hc => List.mem_takeWhile_imp (List.mem_reverse.1 hc)

theorem trims_iff {text inner : List Char} : Trims text inner ↔ trimChars text = inner := by
  constructor
  · rintro ⟨⟨hfirst, hlast⟩, before, after, rfl, hbefore, hafter⟩
    -- from the back only the blank end is dropped, as the text within does not end in a blank
    have hback : ((inner ++ after).reverse.dropWhile isBlank).reverse = inner := by
      rw [List.reverse_append,
        List.dropWhile_append_of_pos fun c hc => hafter c (List.mem_reverse.1 hc),
        dropWhile_blank_eq_self, List.reverse_reverse]
      rwa [List.head?_reverse]
    rw [trimChars, List.append_assoc, List.dropWhile_append_of_pos hbefore]
    cases inner with
    | nil =>
      -- all is blank, and dropped from the front
      have hnone : after.dropWhile isBlank = [] := List.dropWhile_eq_nil_iff.2 hafter
      rw [List.nil_append, hnone]
      rfl
    | cons c rest =>
      have hkept : (c :: rest ++ after).dropWhile isBlank = c :: rest ++ after :=
        dropWhile_blank_eq_self hfirst
      rwa [hkept]
  · rintro rfl
    exact trims_trimChars text

/-! ## Texts without blank ends -/

/-- There is a first character, and it is not blank. -/
def opens (text : String) : Bool := text.toList.head?.any fun c => !isBlank c

/-- There is a last character, and it is not blank. -/
def closes (text : String) : Bool := text.toList.getLast?.any fun c => !isBlank c

theorem opens_append {first : String} (h : opens first = true) (rest : String) :
    opens (first ++ rest) = true := by
  rw [opens] at h ⊢
  rw [String.toList_append]
  cases htext : first.toList with
  | nil => simp [htext] at h
  | cons c more => simpa [htext] using h

/-- A composed text is opened by the literal that it starts with. -/
theorem opens_literal {first : String} (h : opens first = true) (rest : String) :
    opens (toString first ++ rest) = true := opens_append h rest

theorem closes_append (before : String) {last : String} (h : closes last = true) :
    closes (before ++ last) = true := by
  rw [closes] at h ⊢
  rw [String.toList_append, List.getLast?_append]
  cases htext : last.toList.getLast? with
  | none => simp [htext] at h
  | some c => simpa [htext] using h

theorem tight_of_opens {text : String} (hopens : opens text = true) (hcloses : closes text = true) :
    Tight text.toList := by
  rw [opens, Option.any_eq_true] at hopens
  rw [closes, Option.any_eq_true] at hcloses
  rcases hopens with ⟨first, hfirst, hopens⟩
  rcases hcloses with ⟨last, hlast, hcloses⟩
  refine ⟨fun c hc => ?_, fun c hc => ?_⟩
  · cases hfirst.symm.trans hc
    simpa using hopens
  · cases hlast.symm.trans hc
    simpa using hcloses

theorem ne_empty_of_opens {text : String} (h : opens text = true) : text ≠ "" := by
  rintro rfl
  exact absurd h (by decide)

/-- A number ends with a digit. -/
theorem closes_digits {base : Nat} (hlow : 1 < base) (hhigh : base ≤ 16) (n : Nat) :
    closes (String.ofList (Nat.toDigits base n)) = true := by
  have hdigit : ∀ d < 16, isBlank (Nat.digitChar d) = false := by decide
  rw [closes, String.toList_ofList, Nat.toDigits_eq_if hlow]
  split
  · rename_i hsmall
    simp [hdigit n (Nat.lt_of_lt_of_le hsmall hhigh)]
  · have hlast : n % base < 16 := Nat.lt_of_lt_of_le (Nat.mod_lt n (by omega)) hhigh
    simp [hdigit _ hlast]

theorem closes_toString (n : Nat) : closes (toString n) = true := by
  rw [Nat.toString_eq_ofList_toDigits]
  exact closes_digits (by decide) (by decide) n

end Text

/-! ## Statuses and errors in words -/

theorem closes_signalText (signal : Nat) : Text.closes (signalText signal) = true := by
  rw [signalText]
  split
  · exact Text.closes_append _ (by decide)
  · exact Text.closes_toString signal

theorem opens_status (s : WaitStatus) : Text.opens s.text = true := by
  rw [WaitStatus.text]
  split
  · exact Text.opens_literal (by decide) _
  split
  · exact Text.opens_append (Text.opens_literal (by decide) _) _
  split
  · exact Text.opens_literal (by decide) _
  split
  · decide
  · rw [String.append_assoc, String.append_assoc]
    exact Text.opens_literal (by decide) _

theorem closes_status (s : WaitStatus) : Text.closes s.text = true := by
  rw [WaitStatus.text]
  split
  · exact Text.closes_append _ (Text.closes_toString _)
  split
  · -- the words for a core file come last, if there is one
    cases s.dumped with
    | true => exact Text.closes_append _ (by decide)
    | false =>
      rw [if_neg Bool.false_ne_true, String.append_empty]
      exact Text.closes_append _ (closes_signalText _)
  split
  · exact Text.closes_append _ (closes_signalText _)
  split
  · decide
  · have hdigits : Text.closes (String.ofList (Nat.toDigits 16 s.raw.toNat)) = true :=
      Text.closes_digits (by decide) (by decide) _
    exact Text.closes_append _ hdigits

theorem message_ne_empty (e : SignError) : e.message ≠ "" := by
  have hopens : Text.opens e.message = true := by
    -- every message starts with words of its own, before anything that depends on the error
    delta SignError.message
    cases e with
    | pathNotText _ | io _ | stubMismatch _ => exact Text.opens_literal (by decide) _
    | _ =>
      simp only [String.append_assoc]
      exact Text.opens_literal (by decide) _
  exact Text.ne_empty_of_opens hopens

/-! ## What is reported -/

/-- What is reported is what the program wrote, trimmed, or else how it ended. -/
theorem failureMessage_eq {output : Output} {pieces : List Utf8.Piece} {said : List Char}
    (hpieces : Utf8.Decodes output.stderr pieces)
    (hsaid : Text.Trims (pieces.map Utf8.Piece.shown) said) :
    output.failureMessage = if said = [] then output.status.text else String.ofList said := by
  have htrimmed : Text.trim (Utf8.lossy output.stderr) = String.ofList said := by
    rw [Text.trim, Utf8.lossy, String.toList_ofList, Utf8.decodes_iff.1 hpieces,
      Text.trims_iff.1 hsaid]
  simp only [Output.failureMessage, htrimmed, String.ofList_eq_empty_iff]

theorem failureMessage_tight (output : Output) :
    Text.Tight output.failureMessage.toList ∧ output.failureMessage ≠ "" := by
  have hsaid := Text.trims_trimChars ((Utf8.decode output.stderr).map Utf8.Piece.shown)
  rw [failureMessage_eq (Utf8.decodes_decode output.stderr) hsaid]
  split
  · have hopens := opens_status output.status
    exact ⟨Text.tight_of_opens hopens (closes_status output.status), Text.ne_empty_of_opens hopens⟩
  · rename_i hsome
    rw [String.toList_ofList]
    exact ⟨hsaid.toTight, fun hempty => hsome (String.ofList_eq_empty_iff.1 hempty)⟩

/-- An exit code, a signal, a stop or a continuation is not the status of success. -/
theorem raw_ne_zero {s : WaitStatus} (h : s.kindBits ≠ 0 ∨ s.secondByte ≠ 0) : s.raw ≠ 0 := by
  intro hzero
  rw [WaitStatus.kindBits, WaitStatus.secondByte, hzero] at h
  exact absurd h (by decide)

/--
A call succeeds only if its program was started and ended with the status zero, which no exit code
but zero, no signal, no stop and no continuation has.  Of any other there is something to read: what
kept the program from starting, or what the program wrote, decoded with one U+FFFD for each maximal
broken part and then trimmed, or the words for its status if nothing else is left.
-/
theorem check_explains (reply : Reply) :
    (reply.check = .ok () ↔ ∃ output, reply = .finished output ∧ output.status.raw = 0) ∧
      (∀ text, reply.check = .error text → text ≠ "") ∧
      ∀ output, reply = .finished output →
        (output.status.kindBits ≠ 0 ∨ output.status.secondByte ≠ 0 → reply.check ≠ .ok ()) ∧
        (output.status.raw ≠ 0 → reply.check = .error output.failureMessage) ∧
        Text.Tight output.failureMessage.toList ∧
        ∃ pieces said, (∀ others, Utf8.Decodes output.stderr others ↔ others = pieces) ∧
          (∀ others, Text.Trims (pieces.map Utf8.Piece.shown) others ↔ others = said) ∧
          output.failureMessage =
            if said = [] then output.status.text else String.ofList said := by
  have hsuccess : reply.check = .ok () ↔
      ∃ output, reply = .finished output ∧ output.status.raw = 0 := by
    rw [← Reply.succeeded_iff]
    exact ⟨Reply.succeeded_of_check, Reply.check_of_succeeded⟩
  refine ⟨hsuccess, fun text htext => ?_, ?_⟩
  · rcases Reply.check_eq_error_iff.1 htext with ⟨output, -, -, hsame⟩ | ⟨e, -, hsame⟩
    · exact hsame ▸ (failureMessage_tight output).2
    · exact hsame ▸ message_ne_empty e
  · rintro output rfl
    refine ⟨fun hkind hok => ?_,
      fun hraw => Reply.check_eq_error_iff.2 (.inl ⟨output, rfl, hraw, rfl⟩),
      (failureMessage_tight output).1, Utf8.decode output.stderr,
      Text.trimChars ((Utf8.decode output.stderr).map Utf8.Piece.shown),
      fun others => Utf8.decodes_iff.trans eq_comm, fun others => Text.trims_iff.trans eq_comm,
      failureMessage_eq (Utf8.decodes_decode _) (Text.trims_trimChars _)⟩
    rcases hsuccess.1 hok with ⟨_, ⟨⟩, hzero⟩
    exact raw_ne_zero hkind hzero

/-- A cut-off character and a word between wide blanks, and a program that wrote only blanks. -/
theorem check_explains_aborted :
    let aborted (stderr : List UInt8) : Output := ⟨.signaled 6 true, [], stderr⟩
    let broken := aborted [0xC2, 0xA0, 0x20, 0xE2, 0x82, 0x6E, 0x6F, 0xE3, 0x80, 0x80, 0x0A]
    let blank := aborted [0xE2, 0x80, 0xA8, 0x09]
    (Reply.finished broken).check = .error "\uFFFDno" ∧
      (Reply.finished blank).check = .error "signal: 6 (SIGABRT) (core dumped)" := by
  intro aborted broken blank
  rcases (check_explains (.finished broken)).2.2 broken rfl with ⟨-, hbroken, -⟩
  rcases (check_explains (.finished blank)).2.2 blank rfl with ⟨-, hblank, -⟩
  have hsaid : broken.failureMessage = "\uFFFDno" := by decide +kernel
  have hstatus : blank.failureMessage = "signal: 6 (SIGABRT) (core dumped)" := by decide +kernel
  rw [hbroken (by decide), hblank (by decide), hsaid, hstatus]
  exact ⟨rfl, rfl⟩

end BootSigning
