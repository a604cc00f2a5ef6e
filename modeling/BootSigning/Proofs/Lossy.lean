import BootSigning.Proofs.Encoding
import Mathlib.Data.List.Forall2

/-!
# Lossy — bytes read as characters and broken parts

What bytes are read as, without the machine that reads them: from the front, one character after
another, and where no character stands, the longest bytes that some character starts with, or else
one byte.

* `Starts`, `BrokenFront`: the beginning of a character, and a maximal part that is not one;
* `Decodes`: bytes and what they are read as;
* `starts_iff`: the beginnings of characters, by their first byte;
* `decode_cons`: the first piece that is read;
* `decodes_iff`: the machine reads bytes in the one way there is.
-/

namespace BootSigning
namespace Utf8

/-- Bytes with which some character starts. -/
def Starts (part : List UInt8) : Prop := ∃ c, part <+: encodeChar c

/-- A maximal part in front of `rest` that is not a character. -/
structure BrokenFront (part rest : List UInt8) : Prop where
  nonempty : part ≠ []
  /-- There is no character here. -/
  noChar : ∀ c, ¬encodeChar c <+: part ++ rest
  starts : Starts part ∨ part.length = 1
  /-- No character starts with more of these bytes. -/
  maximal : ∀ longer, longer <+: part ++ rest → part.length < longer.length → ¬Starts longer

/-- Bytes and the characters and broken parts that they are made of, in order. -/
inductive Decodes : List UInt8 → List Piece → Prop where
  | nil : Decodes [] []
  | char {rest : List UInt8} {pieces : List Piece} (c : Char) (hrest : Decodes rest pieces) :
      Decodes (encodeChar c ++ rest) (.char c :: pieces)
  | broken {part rest : List UInt8} {pieces : List Piece} (hpart : BrokenFront part rest)
      (hrest : Decodes rest pieces) : Decodes (part ++ rest) (.broken part :: pieces)

/-! ## Beginnings of characters -/

/-- The byte lies in the range. -/
def InRange (range : UInt8 × UInt8) (b : UInt8) : Prop := range.1 ≤ b ∧ b ≤ range.2

theorem exists_encodeChar_iff {bytes : List UInt8} :
    (∃ c, encodeChar c = bytes) ↔ ∃ v, Spells bytes v := by
  constructor
  · rintro ⟨c, rfl⟩
    exact ⟨c.toNat, spells_encodeChar c⟩
  · rintro ⟨v, hspells⟩
    exact ⟨Char.ofNat v, hspells.encodeChar⟩

theorem encodeChar_ne_nil (c : Char) : encodeChar c ≠ [] := by
  intro hnil
  have hspells := spells_encodeChar c
  rw [hnil] at hspells
  cases hspells

section

variable {b : UInt8} {front : List UInt8}

/-- The bytes that follow the first one of a character are those that must follow it. -/
theorem spells_cons_iff :
    (∃ v, Spells (b :: front) v) ↔ (b.toNat < 0x80 ∧ front = []) ∨
      ∃ code ranges, followers b = some (code, ranges) ∧ List.Forall₂ InRange ranges front := by
  constructor
  · rintro ⟨v, hspells⟩
    cases hspells with
    | one hb => exact .inl ⟨hb, rfl⟩
    | two hlow hhigh ht =>
      exact .inr ⟨_, _, followers_two hlow hhigh, .cons ((isTail_iff _).2 ht) .nil⟩
    | three hlow hhigh ht hcode hu =>
      rcases followers_three hlow hhigh with ⟨next, hfollowers, hnext⟩
      exact .inr ⟨_, _, hfollowers, .cons ((hnext _).2 ⟨ht, hcode⟩)
        (.cons ((isTail_iff _).2 hu) .nil)⟩
    | four hlow hhigh ht hcode hu hx =>
      rcases followers_four hlow hhigh with ⟨next, hfollowers, hnext⟩
      exact .inr ⟨_, _, hfollowers, .cons ((hnext _).2 ⟨ht, hcode⟩)
        (.cons ((isTail_iff _).2 hu) (.cons ((isTail_iff _).2 hx) .nil))⟩
  · rintro (⟨hb, rfl⟩ | ⟨code, ranges, hfollowers, hfront⟩)
    · exact ⟨_, .one hb⟩
    -- the first byte tells how many ranges there are, and so how many bytes follow
    by_cases hbad : b.toNat < 0xC2 ∨ 0xF5 ≤ b.toNat
    · rw [followers_none hbad] at hfollowers
      cases hfollowers
    by_cases htwo : b.toNat < 0xE0
    · have hthis := followers_two (Nat.not_lt.1 fun h => hbad (.inl h)) htwo
      rcases Prod.mk.inj (Option.some.inj (hfollowers.symm.trans hthis)) with ⟨-, rfl⟩
      rcases hfront with _ | ⟨ht, _ | _⟩
      exact ⟨_, .two (Nat.not_lt.1 fun h => hbad (.inl h)) htwo ((isTail_iff _).1 ht)⟩
    by_cases hthree : b.toNat < 0xF0
    · rcases followers_three (Nat.not_lt.1 htwo) hthree with ⟨next, hthis, hnext⟩
      rcases Prod.mk.inj (Option.some.inj (hfollowers.symm.trans hthis)) with ⟨-, rfl⟩
      rcases hfront with _ | ⟨ht, _ | ⟨hu, _ | _⟩⟩
      rcases (hnext _).1 ht with ⟨ht, hcode⟩
      exact ⟨_, .three (Nat.not_lt.1 htwo) hthree ht hcode ((isTail_iff _).1 hu)⟩
    · have hfour : b.toNat < 0xF5 := by omega
      rcases followers_four (Nat.not_lt.1 hthree) hfour with ⟨next, hthis, hnext⟩
      rcases Prod.mk.inj (Option.some.inj (hfollowers.symm.trans hthis)) with ⟨-, rfl⟩
      rcases hfront with _ | ⟨ht, _ | ⟨hu, _ | ⟨hx, _ | _⟩⟩⟩
      rcases (hnext _).1 ht with ⟨ht, hcode⟩
      exact ⟨_, .four (Nat.not_lt.1 hthree) hfour ht hcode ((isTail_iff _).1 hu)
        ((isTail_iff _).1 hx)⟩

theorem not_single_of_followers {code : Nat} {ranges : Followers}
    (h : followers b = some (code, ranges)) : ¬b.toNat < 0x80 := by
  intro hlow
  rw [followers_none (.inl (by omega))] at h
  cases h

/-- The first byte of a character says how many others there are. -/
theorem length_of_encodeChar {c : Char} {code : Nat} {ranges : Followers}
    (hc : encodeChar c = b :: front) (h : followers b = some (code, ranges)) :
    front.length = ranges.length := by
  rcases spells_cons_iff.1 (exists_encodeChar_iff.1 ⟨c, hc⟩) with ⟨hlow, -⟩ | ⟨_, _, hsome, hall⟩
  · exact absurd hlow (not_single_of_followers h)
  · rw [h, Option.some.injEq, Prod.mk.injEq] at hsome
    rw [hsome.2, hall.length_eq]

/-- Some byte lies in each of the ranges. -/
theorem inRange_first {code : Nat} {ranges : Followers} (h : followers b = some (code, ranges)) :
    ∀ range ∈ ranges, InRange range range.1 := by
  have hleast : ∀ range ∈ ranges, range.1 ≤ range.2 := by
    unfold followers at h
    split_ifs at h <;> rcases Prod.mk.inj (Option.some.inj h) with ⟨-, rfl⟩ <;>
      simp [tail, le_iff]
  exact fun range hrange => ⟨UInt8.le_refl _, hleast range hrange⟩

/-- A byte below 0x80 is a character; with others come bytes that may follow them, in order. -/
theorem starts_iff :
    Starts (b :: front) ↔ (b.toNat < 0x80 ∧ front = []) ∨
      ∃ code taken more, followers b = some (code, taken ++ more) ∧
        List.Forall₂ InRange taken front := by
  constructor
  · rintro ⟨c, others, hc⟩
    rcases spells_cons_iff.1 (exists_encodeChar_iff.1 ⟨c, hc.symm⟩) with
      ⟨hb, hnil⟩ | ⟨code, ranges, hfollowers, hall⟩
    · exact .inl ⟨hb, (List.append_eq_nil_iff.1 hnil).1⟩
    · refine .inr ⟨code, ranges.take front.length, ranges.drop front.length, ?_,
        List.forall₂_take_append _ _ _ hall⟩
      rw [List.take_append_drop]
      exact hfollowers
  · rintro (⟨hb, rfl⟩ | ⟨code, taken, more, hfollowers, hfront⟩)
    · rcases exists_encodeChar_iff.2 ⟨_, Spells.one hb⟩ with ⟨c, hc⟩
      exact ⟨c, [], hc.symm⟩
    · -- the lowest bytes of the ranges make up the rest of a character
      have hmore : List.Forall₂ InRange more (more.map Prod.fst) := by
        rw [List.forall₂_map_right_iff, List.forall₂_same]
        exact fun range hrange => inRange_first hfollowers range (List.mem_append_right _ hrange)
      have hall := List.rel_append hfront hmore
      rcases exists_encodeChar_iff.2 (spells_cons_iff.2 (.inr ⟨code, _, hfollowers, hall⟩)) with
        ⟨c, hc⟩
      exact ⟨c, more.map Prod.fst, hc.symm⟩

end

/-! ## Where bytes break off -/

/-- Bytes either go through all ranges, or stop at one of them. -/
theorem fits_or_stops (ranges : Followers) (bytes : List UInt8) :
    (∃ front others, bytes = front ++ others ∧ List.Forall₂ InRange ranges front) ∨
      ∃ taken next more front others, ranges = taken ++ next :: more ∧ bytes = front ++ others ∧
        List.Forall₂ InRange taken front ∧ ∀ b ∈ others.head?, ¬InRange next b := by
  induction ranges generalizing bytes with
  | nil => exact .inl ⟨[], bytes, rfl, .nil⟩
  | cons range ranges ih =>
    cases bytes with
    | nil => exact .inr ⟨[], range, ranges, [], [], rfl, rfl, .nil, nofun⟩
    | cons b bytes =>
      by_cases hb : InRange range b
      · rcases ih bytes with ⟨front, others, rfl, hfront⟩ |
          ⟨taken, next, more, front, others, rfl, rfl, hfront, hstop⟩
        · exact .inl ⟨b :: front, others, rfl, .cons hb hfront⟩
        · exact .inr ⟨range :: taken, next, more, b :: front, others, rfl, rfl, .cons hb hfront,
            hstop⟩
      · refine .inr ⟨[], range, ranges, [], b :: bytes, rfl, rfl, .nil, ?_⟩
        rintro _ ⟨⟩
        exact hb

section

variable {taken more : Followers} {next : UInt8 × UInt8} {front others : List UInt8}

/-- What stops is broken, and reading goes on behind it. -/
theorem decodeFrom_stops (hfront : List.Forall₂ InRange taken front)
    (hstop : ∀ b ∈ others.head?, ¬InRange next b) {p : Partial}
    (hp : p.next :: p.later = taken ++ next :: more) :
    decodeFrom (some p) (front ++ others) =
      .broken (p.seen ++ front) :: decodeFrom none others := by
  induction hfront generalizing p with
  | nil =>
    rcases List.cons.inj hp with ⟨rfl, -⟩
    rw [List.append_nil, List.nil_append]
    cases others with
    | nil => rfl
    | cons b others =>
      have hnone : p.advance? b = none := if_neg (hstop b rfl)
      simp only [decodeFrom, hnone]
  | @cons range b ranges front hb _ ih =>
    -- the stop is still ahead, so this byte is not the last of its character
    rcases p with ⟨seen, code, _, _ | ⟨after, later⟩⟩
    · simp at hp
    · rcases List.cons.inj hp with ⟨rfl, hlater⟩
      calc decodeFrom (some ⟨seen, code, _, after :: later⟩) (b :: (front ++ others))
          = decodeFrom (some ⟨seen ++ [b], extend code b, after, later⟩) (front ++ others) :=
            decodeFrom_within hb _
        _ = .broken (seen ++ [b] ++ front) :: decodeFrom none others := ih hlater
        _ = .broken (seen ++ b :: front) :: decodeFrom none others := by
            rw [List.append_assoc, List.singleton_append]

/-- No bytes that start the same get beyond the stop. -/
theorem length_le_of_stops (hfront : List.Forall₂ InRange taken front)
    (hstop : ∀ b ∈ others.head?, ¬InRange next b) {taken' : Followers} {front' : List UInt8}
    (hfront' : List.Forall₂ InRange taken' front') (htaken : taken' <+: taken ++ next :: more)
    (hbytes : front' <+: front ++ others) : front'.length ≤ front.length := by
  induction hfront generalizing taken' front' with
  | nil =>
    -- another byte would have to be the one that does not fit
    rcases hfront' with _ | ⟨hb, _⟩
    · exact Nat.le_refl 0
    · rcases hbytes with ⟨_, rfl⟩
      rcases List.cons_prefix_cons.1 htaken with ⟨rfl, -⟩
      exact absurd hb (hstop _ rfl)
  | cons _ _ ih =>
    rcases hfront' with _ | ⟨_, hrest⟩
    · exact Nat.zero_le _
    · exact Nat.succ_le_succ (ih hrest (List.cons_prefix_cons.1 htaken).2
        (List.cons_prefix_cons.1 hbytes).2)

section

variable {b : UInt8} {code : Nat} (hfollowers : followers b = some (code, taken ++ next :: more))
  (hfront : List.Forall₂ InRange taken front) (hstop : ∀ b ∈ others.head?, ¬InRange next b)

include hfollowers hfront hstop

/-- No character starts with bytes that get beyond the stop. -/
theorem length_le_of_starts {part : List UInt8} (hpart : part <+: b :: front ++ others)
    (hstarts : Starts part) : part.length ≤ (b :: front).length := by
  rcases part with _ | ⟨first, front'⟩
  · exact Nat.zero_le _
  rcases List.cons_prefix_cons.1 hpart with ⟨rfl, hbytes⟩
  rcases starts_iff.1 hstarts with ⟨hlow, -⟩ | ⟨_, taken', more', hsome, hfront'⟩
  · exact absurd hlow (not_single_of_followers hfollowers)
  · rw [hfollowers, Option.some.injEq, Prod.mk.injEq] at hsome
    exact Nat.succ_le_succ (length_le_of_stops hfront hstop hfront' ⟨more', hsome.2.symm⟩ hbytes)

/-- What stops within the bytes of a character is a maximal broken part. -/
theorem brokenFront_of_stops : BrokenFront (b :: front) others := by
  have hmaximal : ∀ longer, longer <+: b :: front ++ others →
      (b :: front).length < longer.length → ¬Starts longer := by
    intro longer hlonger hlength hstarts
    exact absurd (length_le_of_starts hfollowers hfront hstop hlonger hstarts)
      (Nat.not_le.2 hlength)
  have hstarts : Starts (b :: front) :=
    starts_iff.2 (.inr ⟨code, taken, next :: more, hfollowers, hfront⟩)
  refine ⟨List.cons_ne_nil _ _, fun c hc => ?_, .inl hstarts, hmaximal⟩
  -- a whole character would go through all ranges, and so beyond the stop
  rcases hbytes : encodeChar c with _ | ⟨first, all⟩
  · exact encodeChar_ne_nil c hbytes
  have hfirst : first = b := by
    rw [hbytes] at hc
    exact (List.cons_prefix_cons.1 hc).1
  have hall : all.length = (taken ++ next :: more).length :=
    length_of_encodeChar (hfirst ▸ hbytes) hfollowers
  refine hmaximal _ hc ?_ ⟨c, List.prefix_rfl⟩
  rw [hbytes, List.length_cons, List.length_cons, hall, ← hfront.length_eq, List.length_append,
    List.length_cons]
  omega

end

end

/-- A byte that nothing follows and that is no character starts none either. -/
theorem not_starts {b : UInt8} (hlead : 0x80 ≤ b.toNat) (hnone : followers b = none)
    (front : List UInt8) : ¬Starts (b :: front) := by
  intro hstarts
  rcases starts_iff.1 hstarts with ⟨hlow, -⟩ | ⟨code, taken, more, hsome, -⟩
  · exact absurd hlow (Nat.not_lt.2 hlead)
  · rw [hnone] at hsome
    cases hsome

/-- A byte that starts no character is broken by itself. -/
theorem brokenFront_of_no_start {b : UInt8} (h : ∀ front, ¬Starts (b :: front))
    (rest : List UInt8) : BrokenFront [b] rest := by
  have hnone : ∀ longer, longer ≠ [] → longer <+: [b] ++ rest → ¬Starts longer := by
    intro longer hlonger hprefix
    rcases longer with _ | ⟨first, front⟩
    · exact absurd rfl hlonger
    · rcases List.cons_prefix_cons.1 hprefix with ⟨rfl, -⟩
      exact h front
  refine ⟨List.cons_ne_nil _ _, fun c hc => ?_, .inr rfl, fun longer hlonger hlength => ?_⟩
  · exact hnone _ (encodeChar_ne_nil c) hc ⟨c, List.prefix_rfl⟩
  · exact hnone longer (List.ne_nil_of_length_pos (Nat.zero_lt_of_lt hlength)) hlonger

/-! ## Reading -/

theorem decode_char (c : Char) (others : List UInt8) :
    decode (encodeChar c ++ others) = .char c :: decode others := by
  have hread := (spells_encodeChar c).read others
  rwa [Char.ofNat_toNat] at hread

/-- The first piece that is read is the character in front, or else a maximal broken part. -/
theorem decode_cons (b : UInt8) (rest : List UInt8) :
    (∃ c others, b :: rest = encodeChar c ++ others ∧
        decode (b :: rest) = .char c :: decode others) ∨
      ∃ part others, b :: rest = part ++ others ∧ BrokenFront part others ∧
        decode (b :: rest) = .broken part :: decode others := by
  have hchar : ∀ {front others : List UInt8}, (∃ v, Spells (b :: front) v) →
      rest = front ++ others → ∃ c others, b :: rest = encodeChar c ++ others ∧
        decode (b :: rest) = .char c :: decode others := by
    rintro front others hspells rfl
    rcases exists_encodeChar_iff.2 hspells with ⟨c, hc⟩
    have hbytes : b :: (front ++ others) = encodeChar c ++ others := by
      rw [hc, List.cons_append]
    exact ⟨c, others, hbytes, hbytes ▸ decode_char c others⟩
  by_cases hone : b.toNat < 0x80
  · exact .inl (hchar ⟨_, .one hone⟩ rfl)
  have hlead : 0x80 ≤ b.toNat := Nat.not_lt.1 hone
  cases hfollowers : followers b with
  | none =>
    refine .inr ⟨[b], rest, rfl, brokenFront_of_no_start (not_starts hlead hfollowers) rest, ?_⟩
    have hlong : ¬b < 0x80 := fun hb => hone (lt_iff.1 hb)
    simp only [decode, decodeFrom, start, if_neg hlong, hfollowers]
  | some sequence =>
    rcases sequence with ⟨code, ranges⟩
    -- what follows the first byte either makes up a character or stops before that
    rcases fits_or_stops ranges rest with ⟨front, others, hrest, hfront⟩ |
      ⟨taken, next, more, front, others, rfl, rfl, hfront, hstop⟩
    · exact .inl (hchar (spells_cons_iff.2 (.inr ⟨code, ranges, hfollowers, hfront⟩)) hrest)
    · refine .inr ⟨b :: front, others, rfl, brokenFront_of_stops hfollowers hfront hstop, ?_⟩
      rcases hranges : taken ++ next :: more with _ | ⟨range, later⟩
      · simp at hranges
      · rw [hranges] at hfollowers
        exact (decodeFrom_lead hlead hfollowers _).trans
          (decodeFrom_stops (p := ⟨[b], code, range, later⟩) hfront hstop hranges.symm)

theorem decodes_decode (bytes : List UInt8) : Decodes bytes (decode bytes) := by
  -- every piece takes at least one byte, so there are fewer left behind it
  induction hlength : bytes.length using Nat.strongRecOn generalizing bytes with
  | _ length ih =>
    cases bytes with
    | nil => exact .nil
    | cons b rest =>
      rcases decode_cons b rest with ⟨c, others, hbytes, hdecode⟩ |
        ⟨part, others, hbytes, hpart, hdecode⟩
      · have hpos := List.length_pos_of_ne_nil (encodeChar_ne_nil c)
        rw [hdecode, hbytes]
        rw [hbytes, List.length_append] at hlength
        exact .char c (ih _ (by omega) others rfl)
      · have hpos := List.length_pos_of_ne_nil hpart.nonempty
        rw [hdecode, hbytes]
        rw [hbytes, List.length_append] at hlength
        exact .broken hpart (ih _ (by omega) others rfl)

section

variable {part rest part' rest' : List UInt8} (h : BrokenFront part rest)
  (h' : BrokenFront part' rest') (hbytes : part ++ rest = part' ++ rest')

include h h' hbytes

theorem BrokenFront.length_le : part'.length ≤ part.length := by
  -- a longer part is no single byte, so a character would start with it
  refine Nat.le_of_not_lt fun hlonger => ?_
  rcases h'.starts with hstarts | hsingle
  · exact h.maximal part' (hbytes ▸ List.prefix_append _ _) hlonger hstarts
  · exact absurd (List.length_pos_of_ne_nil h.nonempty) (by omega)

/-- Two broken parts in front of the same bytes are the same. -/
theorem BrokenFront.unique : part = part' ∧ rest = rest' :=
  List.append_inj hbytes (Nat.le_antisymm (h'.length_le h hbytes.symm) (h.length_le h' hbytes))

end

theorem BrokenFront.decode {part rest : List UInt8} (h : BrokenFront part rest) :
    Utf8.decode (part ++ rest) = .broken part :: Utf8.decode rest := by
  rcases hbytes : part ++ rest with _ | ⟨b, bytes⟩
  · exact absurd (List.append_eq_nil_iff.1 hbytes).1 h.nonempty
  rcases decode_cons b bytes with ⟨c, others, hchar, -⟩ | ⟨part', rest', hpart, hbroken, hdecode⟩
  · exact absurd ⟨others, (hbytes.trans hchar).symm⟩ (h.noChar c)
  · rcases h.unique hbroken (hbytes.trans hpart) with ⟨rfl, rfl⟩
    exact hdecode

/-- Bytes are made of characters and maximal broken parts in one way, which is how they are read. -/
theorem decodes_iff {bytes : List UInt8} {pieces : List Piece} :
    Decodes bytes pieces ↔ decode bytes = pieces := by
  constructor
  · intro h
    induction h with
    | nil => rfl
    | char c _ ih => rw [decode_char, ih]
    | broken hpart _ ih => rw [hpart.decode, ih]
  · rintro rfl
    exact decodes_decode bytes

end Utf8
end BootSigning
