import BootSigning.Path

/-!
# Encoding — texts and their bytes

Reading the bytes of a text gives the text, and only they do:

* `text?_eq_some_iff`: bytes are read as a text exactly if they are its encoding;
* `Path.text_ofString`: the path of a text shows as that text;
* `pieces_ofString`: the pieces of such a path are those of the text between its slashes.
-/

namespace BootSigning
namespace Utf8

/-! ## Bytes and numbers -/

theorem toNat_toUInt8 {n : Nat} (h : n < 256) : n.toUInt8.toNat = n :=
  Nat.mod_eq_of_lt h

theorem le_iff {a b : UInt8} : a ≤ b ↔ a.toNat ≤ b.toNat := UInt8.le_iff_toNat_le

theorem lt_iff {a b : UInt8} : a < b ↔ a.toNat < b.toNat := UInt8.lt_iff_toNat_lt

theorem eq_iff {a b : UInt8} : a = b ↔ a.toNat = b.toNat := UInt8.toNat_inj.symm

/-- A byte that can only follow another. -/
def IsTail (b : UInt8) : Prop := 0x80 ≤ b.toNat ∧ b.toNat ≤ 0xBF

theorem isTail_iff (b : UInt8) : (tail.1 ≤ b ∧ b ≤ tail.2) ↔ IsTail b := by
  rw [le_iff, le_iff]
  rfl

/-- Two bytes of a character that takes three: nothing shorter and no surrogate. -/
def StartsThree (code : Nat) : Prop := 0x20 ≤ code ∧ (code < 0x360 ∨ 0x37F < code)

/-- Two bytes of a character that takes four: nothing shorter and nothing beyond the last. -/
def StartsFour (code : Nat) : Prop := 0x10 ≤ code ∧ code < 0x110

section

variable {b : UInt8}

theorem followers_two (hlow : 0xC2 ≤ b.toNat) (hhigh : b.toNat < 0xE0) :
    followers b = some (b.toNat - 0xC0, [tail]) := by
  have hnone : ¬ b < 0xC2 := fun h => absurd (lt_iff.1 h) (Nat.not_lt.2 hlow)
  rw [followers, if_neg hnone, if_pos (lt_iff.2 hhigh)]

theorem followers_three (hlow : 0xE0 ≤ b.toNat) (hhigh : b.toNat < 0xF0) :
    ∃ next, followers b = some (b.toNat - 0xE0, [next, tail]) ∧ ∀ t : UInt8,
      (next.1 ≤ t ∧ t ≤ next.2) ↔
        IsTail t ∧ StartsThree ((b.toNat - 0xE0) * 64 + (t.toNat - 0x80)) := by
  have hnone : ¬ b < 0xC2 := fun h => absurd (lt_iff.1 h) (by simp; omega)
  have htwo : ¬ b < 0xE0 := fun h => absurd (lt_iff.1 h) (by simp; omega)
  rw [followers, if_neg hnone, if_neg htwo]
  by_cases hfirst : b = 0xE0
  · refine ⟨(0xA0, 0xBF), by rw [if_pos hfirst, hfirst]; rfl, fun t => ?_⟩
    rw [le_iff, le_iff, hfirst]
    simp [IsTail, StartsThree]
    omega
  by_cases hsurrogate : b = 0xED
  · refine ⟨(0x80, 0x9F), by rw [if_neg hfirst, if_pos hsurrogate, hsurrogate]; rfl, fun t => ?_⟩
    rw [le_iff, le_iff, hsurrogate]
    simp [IsTail, StartsThree]
    omega
  · refine ⟨tail, by rw [if_neg hfirst, if_neg hsurrogate, if_pos (lt_iff.2 hhigh)], fun t => ?_⟩
    have hfirst : b.toNat ≠ 0xE0 := fun h => hfirst (eq_iff.2 h)
    have hsurrogate : b.toNat ≠ 0xED := fun h => hsurrogate (eq_iff.2 h)
    rw [isTail_iff, IsTail, StartsThree]
    omega

theorem followers_four (hlow : 0xF0 ≤ b.toNat) (hhigh : b.toNat < 0xF5) :
    ∃ next, followers b = some (b.toNat - 0xF0, [next, tail, tail]) ∧ ∀ t : UInt8,
      (next.1 ≤ t ∧ t ≤ next.2) ↔
        IsTail t ∧ StartsFour ((b.toNat - 0xF0) * 64 + (t.toNat - 0x80)) := by
  have hnone : ¬ b < 0xC2 := fun h => absurd (lt_iff.1 h) (by simp; omega)
  have htwo : ¬ b < 0xE0 := fun h => absurd (lt_iff.1 h) (by simp; omega)
  have hthree : ¬ b < 0xF0 := fun h => absurd (lt_iff.1 h) (by simp; omega)
  have he0 : b ≠ 0xE0 := fun h => absurd (eq_iff.1 h) (by simp; omega)
  have hed : b ≠ 0xED := fun h => absurd (eq_iff.1 h) (by simp; omega)
  rw [followers, if_neg hnone, if_neg htwo, if_neg he0, if_neg hed, if_neg hthree]
  by_cases hfirst : b = 0xF0
  · refine ⟨(0x90, 0xBF), by rw [if_pos hfirst, hfirst]; rfl, fun t => ?_⟩
    rw [le_iff, le_iff, hfirst]
    simp [IsTail, StartsFour]
    omega
  have hfirstNat : b.toNat ≠ 0xF0 := fun h => hfirst (eq_iff.2 h)
  by_cases hlast : b < 0xF4
  · refine ⟨tail, by rw [if_neg hfirst, if_pos hlast], fun t => ?_⟩
    have hlast : b.toNat < 0xF4 := lt_iff.1 hlast
    rw [isTail_iff, IsTail, StartsFour]
    omega
  · have hlastNat : ¬ b.toNat < 0xF4 := fun h => hlast (lt_iff.2 h)
    have hfour : b = 0xF4 := eq_iff.2 (by simp; omega)
    refine ⟨(0x80, 0x8F), by rw [if_neg hfirst, if_neg hlast, if_pos hfour, hfour]; rfl,
      fun t => ?_⟩
    rw [le_iff, le_iff, hfour]
    simp [IsTail, StartsFour]
    omega

theorem followers_none (h : b.toNat < 0xC2 ∨ 0xF5 ≤ b.toNat) : followers b = none := by
  by_cases hlow : b < 0xC2
  · rw [followers, if_pos hlow]
  · have hlowNat : ¬ b.toNat < 0xC2 := fun h => hlow (lt_iff.2 h)
    have hhigh : 0xF5 ≤ b.toNat := h.resolve_left hlowNat
    have hltE0 : ¬ b < 0xE0 := fun h => absurd (lt_iff.1 h) (by simp; omega)
    have hltF0 : ¬ b < 0xF0 := fun h => absurd (lt_iff.1 h) (by simp; omega)
    have hltF4 : ¬ b < 0xF4 := fun h => absurd (lt_iff.1 h) (by simp; omega)
    have he0 : b ≠ 0xE0 := fun h => absurd (eq_iff.1 h) (by simp; omega)
    have hed : b ≠ 0xED := fun h => absurd (eq_iff.1 h) (by simp; omega)
    have hf0 : b ≠ 0xF0 := fun h => absurd (eq_iff.1 h) (by simp; omega)
    have hf4 : b ≠ 0xF4 := fun h => absurd (eq_iff.1 h) (by simp; omega)
    rw [followers, if_neg hlow, if_neg hltE0, if_neg he0, if_neg hed, if_neg hltF0, if_neg hf0,
      if_neg hltF4, if_neg hf4]

end

/-! ## The bytes of a character -/

/-- A code point is below the surrogates or above them. -/
theorem toNat_valid (c : Char) : c.toNat < 0xD800 ∨ 0xDFFF < c.toNat ∧ c.toNat < 0x110000 :=
  c.valid

theorem toNat_ofNat {v : Nat} (h : v < 0xD800 ∨ 0xDFFF < v ∧ v < 0x110000) :
    (Char.ofNat v).toNat = v := by
  have hvalid : v.isValidChar := h
  rw [Char.ofNat, dif_pos hvalid]
  rfl

/-- The code point of a byte sequence so far, with one more byte that follows. -/
def extend (code : Nat) (b : UInt8) : Nat := code * 64 + (b.toNat - 0x80)

/-- What the first byte of a character says, and what each of the others adds. -/
inductive Spells : List UInt8 → Nat → Prop where
  | one {b : UInt8} (hb : b.toNat < 0x80) : Spells [b] b.toNat
  | two {b t : UInt8} (hlow : 0xC2 ≤ b.toNat) (hhigh : b.toNat < 0xE0) (ht : IsTail t) :
      Spells [b, t] (extend (b.toNat - 0xC0) t)
  | three {b t u : UInt8} (hlow : 0xE0 ≤ b.toNat) (hhigh : b.toNat < 0xF0) (ht : IsTail t)
      (hcode : StartsThree (extend (b.toNat - 0xE0) t)) (hu : IsTail u) :
      Spells [b, t, u] (extend (extend (b.toNat - 0xE0) t) u)
  | four {b t u x : UInt8} (hlow : 0xF0 ≤ b.toNat) (hhigh : b.toNat < 0xF5) (ht : IsTail t)
      (hcode : StartsFour (extend (b.toNat - 0xF0) t)) (hu : IsTail u) (hx : IsTail x) :
      Spells [b, t, u, x] (extend (extend (extend (b.toNat - 0xF0) t) u) x)

/-- The bytes of a character spell its code point. -/
theorem spells_encodeChar (c : Char) : Spells (encodeChar c) c.toNat := by
  have hvalid := toNat_valid c
  unfold encodeChar
  generalize c.toNat = v at hvalid ⊢
  dsimp only
  split
  · rename_i hone
    have hb : v.toUInt8.toNat = v := toNat_toUInt8 (by omega)
    have hspells := Spells.one (b := v.toUInt8) (by omega)
    rwa [hb] at hspells
  split
  · rename_i hone htwo
    have hb : (0xC0 + v / 64).toUInt8.toNat = 0xC0 + v / 64 := toNat_toUInt8 (by omega)
    have ht : (0x80 + v % 64).toUInt8.toNat = 0x80 + v % 64 := toNat_toUInt8 (by omega)
    have hspells := Spells.two (b := (0xC0 + v / 64).toUInt8) (t := (0x80 + v % 64).toUInt8)
      (by omega) (by omega) (by unfold IsTail; omega)
    have hcode : extend ((0xC0 + v / 64).toUInt8.toNat - 0xC0) (0x80 + v % 64).toUInt8 = v := by
      unfold extend
      omega
    rwa [hcode] at hspells
  split
  · rename_i hone htwo hthree
    have hb : (0xE0 + v / 4096).toUInt8.toNat = 0xE0 + v / 4096 := toNat_toUInt8 (by omega)
    have ht : (0x80 + v / 64 % 64).toUInt8.toNat = 0x80 + v / 64 % 64 := toNat_toUInt8 (by omega)
    have hu : (0x80 + v % 64).toUInt8.toNat = 0x80 + v % 64 := toNat_toUInt8 (by omega)
    have hstart : extend ((0xE0 + v / 4096).toUInt8.toNat - 0xE0) (0x80 + v / 64 % 64).toUInt8 =
        v / 64 := by
      unfold extend
      omega
    have hspells := Spells.three (b := (0xE0 + v / 4096).toUInt8)
      (t := (0x80 + v / 64 % 64).toUInt8) (u := (0x80 + v % 64).toUInt8) (by omega) (by omega)
      (by unfold IsTail; omega) (by rw [hstart]; unfold StartsThree; omega)
      (by unfold IsTail; omega)
    have hcode : extend (v / 64) (0x80 + v % 64).toUInt8 = v := by
      unfold extend
      omega
    rwa [hstart, hcode] at hspells
  · rename_i hone htwo hthree
    have hb : (0xF0 + v / 262144).toUInt8.toNat = 0xF0 + v / 262144 := toNat_toUInt8 (by omega)
    have ht : (0x80 + v / 4096 % 64).toUInt8.toNat = 0x80 + v / 4096 % 64 :=
      toNat_toUInt8 (by omega)
    have hu : (0x80 + v / 64 % 64).toUInt8.toNat = 0x80 + v / 64 % 64 := toNat_toUInt8 (by omega)
    have hx : (0x80 + v % 64).toUInt8.toNat = 0x80 + v % 64 := toNat_toUInt8 (by omega)
    have hstart : extend ((0xF0 + v / 262144).toUInt8.toNat - 0xF0)
        (0x80 + v / 4096 % 64).toUInt8 = v / 4096 := by
      unfold extend
      omega
    have hspells := Spells.four (b := (0xF0 + v / 262144).toUInt8)
      (t := (0x80 + v / 4096 % 64).toUInt8) (u := (0x80 + v / 64 % 64).toUInt8)
      (x := (0x80 + v % 64).toUInt8) (by omega) (by omega) (by unfold IsTail; omega)
      (by rw [hstart]; unfold StartsFour; omega) (by unfold IsTail; omega)
      (by unfold IsTail; omega)
    have hcode : extend (extend (v / 4096) (0x80 + v / 64 % 64).toUInt8)
        (0x80 + v % 64).toUInt8 = v := by
      unfold extend
      omega
    rwa [hstart, hcode] at hspells

/-- No other bytes spell it. -/
theorem Spells.encodeChar {bytes : List UInt8} {v : Nat} (h : Spells bytes v) :
    Utf8.encodeChar (Char.ofNat v) = bytes := by
  have hbytes : ∀ {n : Nat} {b : UInt8}, n = b.toNat → n.toUInt8 = b := by
    rintro n b rfl
    simp
  cases h with
  | @one b hb =>
    rw [Utf8.encodeChar, toNat_ofNat (by omega)]
    simp only [if_pos hb]
    rw [hbytes rfl]
  | @two b t hlow hhigh ht =>
    unfold IsTail at ht
    rw [Utf8.encodeChar, toNat_ofNat (by unfold extend; omega)]
    have hone : ¬ extend (b.toNat - 0xC0) t < 0x80 := by unfold extend; omega
    have htwo : extend (b.toNat - 0xC0) t < 0x800 := by unfold extend; omega
    simp only [if_neg hone, if_pos htwo]
    rw [hbytes (b := b) (by unfold extend; omega), hbytes (b := t) (by unfold extend; omega)]
  | @three b t u hlow hhigh ht hcode hu =>
    unfold IsTail at ht hu
    unfold StartsThree at hcode
    generalize hstart : extend (b.toNat - 0xE0) t = start at hcode
    unfold extend at hstart
    rw [Utf8.encodeChar, toNat_ofNat (by unfold extend; omega)]
    have hone : ¬ extend start u < 0x80 := by unfold extend; omega
    have htwo : ¬ extend start u < 0x800 := by unfold extend; omega
    have hthree : extend start u < 0x10000 := by unfold extend; omega
    simp only [if_neg hone, if_neg htwo, if_pos hthree]
    rw [hbytes (b := b) (by unfold extend; omega), hbytes (b := t) (by unfold extend; omega),
      hbytes (b := u) (by unfold extend; omega)]
  | @four b t u x hlow hhigh ht hcode hu hx =>
    unfold IsTail at ht hu hx
    unfold StartsFour at hcode
    generalize hstart : extend (b.toNat - 0xF0) t = start at hcode
    unfold extend at hstart
    rw [Utf8.encodeChar, toNat_ofNat (by unfold extend; omega)]
    have hone : ¬ extend (extend start u) x < 0x80 := by unfold extend; omega
    have htwo : ¬ extend (extend start u) x < 0x800 := by unfold extend; omega
    have hthree : ¬ extend (extend start u) x < 0x10000 := by unfold extend; omega
    simp only [if_neg hone, if_neg htwo, if_neg hthree]
    rw [hbytes (b := b) (by unfold extend; omega), hbytes (b := t) (by unfold extend; omega),
      hbytes (b := u) (by unfold extend; omega), hbytes (b := x) (by unfold extend; omega)]

/-! ## Reading -/

section

variable {seen : List UInt8} {code : Nat} {next after : UInt8 × UInt8} {later : Followers}
  {b : UInt8}

/-- The last byte of a character. -/
theorem decodeFrom_last (hnext : next.1 ≤ b ∧ b ≤ next.2) (rest : List UInt8) :
    decodeFrom (some ⟨seen, code, next, []⟩) (b :: rest) =
      .char (Char.ofNat (extend code b)) :: decodeFrom none rest := by
  have hadvance : Partial.advance? ⟨seen, code, next, []⟩ b =
      some (.inl (.char (Char.ofNat (extend code b)))) := by
    rw [Partial.advance?, if_pos hnext]
    rfl
  rw [decodeFrom, hadvance]

/-- A byte within a character. -/
theorem decodeFrom_within (hnext : next.1 ≤ b ∧ b ≤ next.2) (rest : List UInt8) :
    decodeFrom (some ⟨seen, code, next, after :: later⟩) (b :: rest) =
      decodeFrom (some ⟨seen ++ [b], extend code b, after, later⟩) rest := by
  have hadvance : Partial.advance? ⟨seen, code, next, after :: later⟩ b =
      some (.inr ⟨seen ++ [b], extend code b, after, later⟩) := by
    rw [Partial.advance?, if_pos hnext]
    rfl
  rw [decodeFrom, hadvance]

end

theorem decodeFrom_lead {b : UInt8} {code : Nat} {next : UInt8 × UInt8} {later : Followers}
    (hlead : 0x80 ≤ b.toNat) (h : followers b = some (code, next :: later)) (rest : List UInt8) :
    decodeFrom none (b :: rest) = decodeFrom (some ⟨[b], code, next, later⟩) rest := by
  have hlong : ¬ b < 0x80 := fun hb => absurd (lt_iff.1 hb) (Nat.not_lt.2 hlead)
  simp only [decodeFrom, start, if_neg hlong, h]

/-- Bytes that spell a code point are read as its character. -/
theorem Spells.read {bytes : List UInt8} {v : Nat} (h : Spells bytes v) (rest : List UInt8) :
    decodeFrom none (bytes ++ rest) = .char (Char.ofNat v) :: decodeFrom none rest := by
  cases h with
  | @one b hb =>
    have hone : b < 0x80 := lt_iff.2 hb
    simp only [List.cons_append, List.nil_append, decodeFrom, start, if_pos hone]
  | @two b t hlow hhigh ht =>
    have hfollowers := followers_two hlow hhigh
    generalize b.toNat - 0xC0 = code at hfollowers
    calc decodeFrom none (b :: t :: rest)
        = decodeFrom (some ⟨[b], code, tail, []⟩) (t :: rest) :=
          decodeFrom_lead (by omega) hfollowers _
      _ = .char (Char.ofNat (extend code t)) :: decodeFrom none rest :=
          decodeFrom_last ((isTail_iff t).2 ht) rest
  | @three b t u hlow hhigh ht hcode hu =>
    rcases followers_three hlow hhigh with ⟨next, hfollowers, hnext⟩
    calc decodeFrom none (b :: t :: u :: rest)
        = decodeFrom (some ⟨[b], b.toNat - 0xE0, next, [tail]⟩) (t :: u :: rest) :=
          decodeFrom_lead (by omega) hfollowers _
      _ = decodeFrom (some ⟨[b] ++ [t], extend (b.toNat - 0xE0) t, tail, []⟩) (u :: rest) :=
          decodeFrom_within ((hnext t).2 ⟨ht, hcode⟩) _
      _ = _ := decodeFrom_last ((isTail_iff u).2 hu) rest
  | @four b t u x hlow hhigh ht hcode hu hx =>
    rcases followers_four hlow hhigh with ⟨next, hfollowers, hnext⟩
    calc decodeFrom none (b :: t :: u :: x :: rest)
        = decodeFrom (some ⟨[b], b.toNat - 0xF0, next, [tail, tail]⟩) (t :: u :: x :: rest) :=
          decodeFrom_lead (by omega) hfollowers _
      _ = decodeFrom (some ⟨[b] ++ [t], extend (b.toNat - 0xF0) t, tail, [tail]⟩)
            (u :: x :: rest) := decodeFrom_within ((hnext t).2 ⟨ht, hcode⟩) _
      _ = decodeFrom (some ⟨[b] ++ [t] ++ [u], extend (extend (b.toNat - 0xF0) t) u, tail, []⟩)
            (x :: rest) := decodeFrom_within ((isTail_iff u).2 hu) _
      _ = _ := decodeFrom_last ((isTail_iff x).2 hx) rest

/-- Within a character that is read in the end, the next byte is one that may follow. -/
theorem next_of_char {p : Partial} {rest : List UInt8} {c : Char} {pieces : List Piece}
    (h : decodeFrom (some p) rest = .char c :: pieces) :
    ∃ b others, rest = b :: others ∧ p.next.1 ≤ b ∧ b ≤ p.next.2 := by
  cases rest with
  | nil => cases h
  | cons b others =>
    by_cases hnext : p.next.1 ≤ b ∧ b ≤ p.next.2
    · exact ⟨b, others, rfl, hnext⟩
    · simp only [decodeFrom, Partial.advance?, if_neg hnext] at h
      cases h

/-- If a character is read first, the bytes start with some that spell it. -/
theorem spells_of_char {b : UInt8} {rest : List UInt8} {c : Char} {pieces : List Piece}
    (h : decodeFrom none (b :: rest) = .char c :: pieces) :
    ∃ first others v, b :: rest = first ++ others ∧ Spells first v := by
  by_cases hone : b.toNat < 0x80
  · exact ⟨[b], rest, _, rfl, .one hone⟩
  have hlead : 0x80 ≤ b.toNat := Nat.not_lt.1 hone
  by_cases hbad : b.toNat < 0xC2 ∨ 0xF5 ≤ b.toNat
  · -- such a byte starts no character
    have hlong : ¬ b < 0x80 := fun hb => hone (lt_iff.1 hb)
    simp only [decodeFrom, start, if_neg hlong, followers_none hbad] at h
    cases h
  by_cases htwo : b.toNat < 0xE0
  · rw [decodeFrom_lead hlead (followers_two (by omega) htwo)] at h
    rcases next_of_char h with ⟨t, others, rfl, ht⟩
    exact ⟨[b, t], others, _, rfl, .two (by omega) htwo ((isTail_iff t).1 ht)⟩
  by_cases hthree : b.toNat < 0xF0
  · rcases followers_three (by omega) hthree with ⟨next, hfollowers, hnext⟩
    rw [decodeFrom_lead hlead hfollowers] at h
    rcases next_of_char h with ⟨t, others, rfl, ht⟩
    rw [decodeFrom_within ht] at h
    rcases next_of_char h with ⟨u, others, rfl, hu⟩
    rcases (hnext t).1 ht with ⟨ht, hcode⟩
    exact ⟨[b, t, u], others, _, rfl, .three (by omega) hthree ht hcode ((isTail_iff u).1 hu)⟩
  · have hhigh : b.toNat < 0xF5 := by omega
    rcases followers_four (Nat.not_lt.1 hthree) hhigh with ⟨next, hfollowers, hnext⟩
    rw [decodeFrom_lead hlead hfollowers] at h
    rcases next_of_char h with ⟨t, others, rfl, ht⟩
    rw [decodeFrom_within ht] at h
    rcases next_of_char h with ⟨u, others, rfl, hu⟩
    rw [decodeFrom_within hu] at h
    rcases next_of_char h with ⟨x, others, rfl, hx⟩
    rcases (hnext t).1 ht with ⟨ht, hcode⟩
    exact ⟨[b, t, u, x], others, _, rfl, .four (by omega) hhigh ht hcode
      ((isTail_iff u).1 hu) ((isTail_iff x).1 hx)⟩

/-! ## Texts -/

theorem decode_encode (cs : List Char) : decode (cs.flatMap encodeChar) = cs.map .char := by
  induction cs with
  | nil => rfl
  | cons c rest ih =>
    have hread := (spells_encodeChar c).read (rest.flatMap encodeChar)
    rw [Char.ofNat_toNat] at hread
    calc decode ((c :: rest).flatMap encodeChar)
        = .char c :: decode (rest.flatMap encodeChar) := by rw [List.flatMap_cons]; exact hread
      _ = (c :: rest).map .char := by rw [ih]; rfl

/-- Bytes are never read as nothing. -/
theorem decodeFrom_ne_nil (p : Partial) (bytes : List UInt8) : decodeFrom (some p) bytes ≠ [] := by
  induction bytes generalizing p with
  | nil => simp [decodeFrom]
  | cons b rest ih =>
    rw [decodeFrom]
    split
    · exact List.cons_ne_nil _ _
    · exact ih _
    · exact List.cons_ne_nil _ _

theorem decode_cons_ne_nil (b : UInt8) (rest : List UInt8) : decode (b :: rest) ≠ [] := by
  rw [decode, decodeFrom]
  split
  · exact List.cons_ne_nil _ _
  · exact decodeFrom_ne_nil _ _

/-- Only the bytes of characters are read as these characters. -/
theorem encode_of_decode {bytes : List UInt8} {cs : List Char} (h : decode bytes = cs.map .char) :
    cs.flatMap encodeChar = bytes := by
  induction cs generalizing bytes with
  | nil =>
    cases bytes with
    | nil => rfl
    | cons b rest => exact absurd h (decode_cons_ne_nil b rest)
  | cons c cs ih =>
    cases bytes with
    | nil => cases h
    | cons b rest =>
      rcases spells_of_char h with ⟨first, others, v, hbytes, hspells⟩
      rw [hbytes] at h ⊢
      have hread : decode (first ++ others) = .char (Char.ofNat v) :: decode others :=
        hspells.read others
      rw [hread, List.map_cons, List.cons.injEq, Piece.char.injEq] at h
      rcases h with ⟨rfl, hothers⟩
      rw [List.flatMap_cons, hspells.encodeChar, ih hothers]

theorem mapM_char? {pieces : List Piece} {cs : List Char} :
    pieces.mapM Piece.char? = some cs ↔ pieces = cs.map .char := by
  induction pieces generalizing cs with
  | nil => cases cs <;> simp
  | cons piece rest ih =>
    cases piece with
    | broken bytes => cases cs <;> simp [Piece.char?]
    | char c =>
      cases cs with
      | nil => cases hrest : rest.mapM Piece.char? <;> simp [Piece.char?, hrest]
      | cons first others =>
        have hrest := @ih others
        cases hmapped : rest.mapM Piece.char? <;> simp_all [Piece.char?]

/-- Bytes are read as a text exactly if they are its encoding. -/
theorem text?_eq_some_iff {bytes : List UInt8} {text : String} :
    text? bytes = some text ↔ encode text = bytes := by
  have hmap : text? bytes = some text ↔ (decode bytes).mapM Piece.char? = some text.toList := by
    rw [text?, Option.map_eq_some_iff]
    constructor
    · rintro ⟨cs, hcs, rfl⟩
      simpa using hcs
    · intro h
      exact ⟨text.toList, h, by simp⟩
  rw [hmap, mapM_char?]
  constructor
  · exact encode_of_decode
  · rintro rfl
    exact decode_encode text.toList

theorem lossy_encode (text : String) : lossy (encode text) = text := by
  rw [lossy, encode, decode_encode, List.map_map]
  have hshown : Piece.shown ∘ Piece.char = id := rfl
  rw [hshown, List.map_id, String.ofList_toList]

/-! ## Slashes -/

/-- Only a slash is spelled with the byte of a slash. -/
theorem Spells.of_slash {bytes : List UInt8} {v : Nat} (h : Spells bytes v)
    (hslash : Path.slash ∈ bytes) : v = '/'.toNat := by
  have hsmall : ∀ {b : UInt8}, 0x80 ≤ b.toNat → Path.slash ≠ b := by
    rintro b hb rfl
    exact absurd hb (by decide)
  cases h with
  | one hb =>
    rw [← List.mem_singleton.1 hslash]
    rfl
  | two hlow hhigh ht =>
    have hb := hsmall (Nat.le_trans (by decide) hlow)
    simp [hb, hsmall ht.1] at hslash
  | three hlow hhigh ht hcode hu =>
    have hb := hsmall (Nat.le_trans (by decide) hlow)
    simp [hb, hsmall ht.1, hsmall hu.1] at hslash
  | four hlow hhigh ht hcode hu hx =>
    have hb := hsmall (Nat.le_trans (by decide) hlow)
    simp [hb, hsmall ht.1, hsmall hu.1, hsmall hx.1] at hslash

theorem slash_not_mem_encodeChar {c : Char} (hc : c ≠ '/') : Path.slash ∉ encodeChar c := by
  intro hslash
  have hcode : c.toNat = '/'.toNat := (spells_encodeChar c).of_slash hslash
  exact hc (Char.toNat_inj.1 hcode)

/-- What is without a separator goes in front of the first piece. -/
theorem splitOn_append {α : Type} [BEq α] [LawfulBEq α] {sep : α} {before : List α}
    (h : sep ∉ before) (rest : List α) :
    (before ++ rest).splitOn sep = (rest.splitOn sep).modifyHead (before ++ ·) := by
  induction before with
  | nil =>
    have hid : (fun piece : List α => [] ++ piece) = id := rfl
    rw [List.nil_append, hid, List.modifyHead_id]
    rfl
  | cons b before ih =>
    rcases not_or.1 (mt List.mem_cons.2 h) with ⟨hb, hbefore⟩
    have hne : (b == sep) = false := by simpa using Ne.symm hb
    rw [List.cons_append, List.splitOn_cons_eq_if_modifyHead, hne, ih hbefore]
    simp only [Bool.false_eq_true, if_false, List.modifyHead_modifyHead]
    rfl

/-- The pieces of a text between slashes are encoded one by one. -/
theorem splitOn_encode (cs : List Char) :
    (cs.flatMap encodeChar).splitOn Path.slash =
      (cs.splitOn '/').map fun piece => piece.flatMap encodeChar := by
  induction cs with
  | nil => rfl
  | cons c rest ih =>
    rw [List.flatMap_cons, List.splitOn_cons_eq_if_modifyHead c]
    by_cases hc : c = '/'
    · -- a slash is an empty piece before the others
      subst hc
      have hbytes : encodeChar '/' = [Path.slash] := by decide
      rw [hbytes, List.singleton_append, List.splitOn_cons_eq_if_modifyHead, ih]
      simp
    · have hne : (c == '/') = false := by simpa using hc
      rw [splitOn_append (slash_not_mem_encodeChar hc), ih, hne]
      cases rest.splitOn '/' <;> simp

end Utf8

namespace Path

theorem text_ofString (s : String) : (ofString s).text = s := Utf8.lossy_encode s

theorem isText_iff {p : Path} : p.isText = true ↔ ∃ s, p = ofString s := by
  rw [isText, Option.isSome_iff_exists]
  constructor
  · rintro ⟨s, hs⟩
    exact ⟨s, by rw [ofString, Utf8.text?_eq_some_iff.1 hs]⟩
  · rintro ⟨s, rfl⟩
    exact ⟨s, Utf8.text?_eq_some_iff.2 rfl⟩

/-- The pieces of a path that is text. -/
theorem pieces_ofString (s : String) :
    (ofString s).pieces =
      (s.toList.splitOn '/').map fun piece => Utf8.encode (String.ofList piece) := by
  have hencode : ∀ piece : List Char, Utf8.encode (String.ofList piece) =
      piece.flatMap Utf8.encodeChar := by
    intro piece
    rw [Utf8.encode, String.toList_ofList]
  simp only [hencode]
  exact Utf8.splitOn_encode s.toList

end Path
end BootSigning
