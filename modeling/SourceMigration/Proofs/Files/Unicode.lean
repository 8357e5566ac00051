import Mathlib.Data.List.Basic
import SourceMigration.Files.Encoding

/-!
# SourceMigration — texts and bytes

Bytes that are a text in UTF-8 are what the text is written as, for no longer form of a character and
no half of a surrogate pair is read. So a text that is not the one that was read is written as other
bytes.

## Results

* `encode_character` — a character is written as the bytes that it was read from.
* `encode_decode`    — a text is written as the bytes that it was read from.
* `encode_inj`       — different texts are written as different bytes.
-/

namespace SourceMigration

namespace Encoding

-- ---------------------------------------------------------------------------
-- One character
-- ---------------------------------------------------------------------------

theorem toNat_ofNat {n : Nat} (h : n.isValidChar) : (Char.ofNat n).val.toNat = n := by
  rw [Char.ofNat, dif_pos h]
  rfl

/-- A byte that can follow the first byte of a character. -/
theorem ofNat_eq {n : Nat} {b : UInt8} (h : n = b.toNat) : UInt8.ofNat n = b := by
  rw [h, UInt8.ofNat_toNat]

section Character

variable {b c d e : UInt8}

theorem encode_one (hb : b.toNat < 0x80) : String.utf8EncodeChar (Char.ofNat b.toNat) = [b] := by
  have hValid : b.toNat.isValidChar := Or.inl (by omega)
  simp only [String.utf8EncodeChar, toNat_ofNat hValid]
  rw [if_pos (by omega), ofNat_eq rfl]

theorem encode_two (hb : 0xC2 ≤ b.toNat ∧ b.toNat ≤ 0xDF) (hc : 0x80 ≤ c.toNat ∧ c.toNat ≤ 0xBF) :
    String.utf8EncodeChar (characterOf b.toNat [c]) = [b, c] := by
  have hLead : b.toNat < 0xE0 := by omega
  simp only [characterOf, if_pos hLead, List.foldl_cons, List.foldl_nil]
  generalize hn : 64 * (b.toNat - 0xC0) + (c.toNat - 0x80) = n
  have hValid : n.isValidChar := Or.inl (by omega)
  simp only [String.utf8EncodeChar, toNat_ofNat hValid]
  rw [if_neg (by omega), if_pos (by omega), ofNat_eq (b := b) (by omega), ofNat_eq (b := c) (by omega)]

theorem encode_three (hb : 0xE0 ≤ b.toNat ∧ b.toNat ≤ 0xEF) (hc : 0x80 ≤ c.toNat ∧ c.toNat ≤ 0xBF)
    (hLow : b.toNat = 0xE0 → 0xA0 ≤ c.toNat) (hHigh : b.toNat = 0xED → c.toNat ≤ 0x9F)
    (hd : 0x80 ≤ d.toNat ∧ d.toNat ≤ 0xBF) :
    String.utf8EncodeChar (characterOf b.toNat [c, d]) = [b, c, d] := by
  simp only [characterOf, if_neg (show ¬ b.toNat < 0xE0 by omega), if_pos (show b.toNat < 0xF0 by omega),
    List.foldl_cons, List.foldl_nil]
  generalize hn : 64 * (64 * (b.toNat - 0xE0) + (c.toNat - 0x80)) + (d.toNat - 0x80) = n
  have hValid : n.isValidChar := by
    unfold Nat.isValidChar
    omega
  simp only [String.utf8EncodeChar, toNat_ofNat hValid]
  rw [if_neg (by omega), if_neg (by omega), if_pos (by omega), ofNat_eq (b := b) (by omega),
    ofNat_eq (b := c) (by omega), ofNat_eq (b := d) (by omega)]

theorem encode_four (hb : 0xF0 ≤ b.toNat ∧ b.toNat ≤ 0xF4) (hc : 0x80 ≤ c.toNat ∧ c.toNat ≤ 0xBF)
    (hLow : b.toNat = 0xF0 → 0x90 ≤ c.toNat) (hHigh : b.toNat = 0xF4 → c.toNat ≤ 0x8F)
    (hd : 0x80 ≤ d.toNat ∧ d.toNat ≤ 0xBF) (he : 0x80 ≤ e.toNat ∧ e.toNat ≤ 0xBF) :
    String.utf8EncodeChar (characterOf b.toNat [c, d, e]) = [b, c, d, e] := by
  simp only [characterOf, if_neg (show ¬ b.toNat < 0xE0 by omega),
    if_neg (show ¬ b.toNat < 0xF0 by omega), List.foldl_cons, List.foldl_nil]
  generalize hn : 64 * (64 * (64 * (b.toNat - 0xF0) + (c.toNat - 0x80)) + (d.toNat - 0x80)) +
    (e.toNat - 0x80) = n
  have hValid : n.isValidChar := by
    unfold Nat.isValidChar
    omega
  simp only [String.utf8EncodeChar, toNat_ofNat hValid]
  rw [if_neg (by omega), if_neg (by omega), if_neg (by omega), ofNat_eq (b := b) (by omega),
    ofNat_eq (b := c) (by omega), ofNat_eq (b := d) (by omega), ofNat_eq (b := e) (by omega)]

/-- The bytes that follow are there, and in their ranges. -/
theorem exists_of_followers {count low high : Nat} {bs : List UInt8}
    (h : followers (count + 1) low high bs = count + 1) :
    ∃ c rest, bs = c :: rest ∧ (low ≤ c.toNat ∧ c.toNat ≤ high) ∧
      followers count 0x80 0xBF rest = count := by
  cases bs with
  | nil => cases h
  | cons c rest =>
    rw [followers] at h
    split at h
    · exact ⟨c, rest, rfl, ‹_›, Nat.succ.inj h⟩
    · cases h

/-- The first bytes of characters of two, three and four bytes. -/
theorem continuation_cases {n count low high : Nat} (h : continuation? n = some (count, low, high)) :
    0x80 ≤ low ∧ high ≤ 0xBF ∧
      (count = 1 ∧ (0xC2 ≤ n ∧ n ≤ 0xDF) ∨
        count = 2 ∧ (0xE0 ≤ n ∧ n ≤ 0xEF) ∧ (n = 0xE0 → 0xA0 ≤ low) ∧ (n = 0xED → high ≤ 0x9F) ∨
        count = 3 ∧ (0xF0 ≤ n ∧ n ≤ 0xF4) ∧ (n = 0xF0 → 0x90 ≤ low) ∧ (n = 0xF4 → high ≤ 0x8F)) := by
  unfold continuation? at h
  repeat' split at h
  all_goals
    simp only [reduceCtorEq, Option.some.injEq, Prod.mk.injEq] at h
    try omega

/-- A character is written as the bytes that it was read from. -/
theorem encode_character {count low high : Nat} {bs : List UInt8}
    (hFirst : continuation? b.toNat = some (count, low, high))
    (hRest : followers count low high bs = count) :
    String.utf8EncodeChar (characterOf b.toNat (bs.take count)) = b :: bs.take count := by
  obtain ⟨hLow, hHigh, ⟨rfl, hb⟩ | ⟨rfl, hb, hFloor, hCeiling⟩ | ⟨rfl, hb, hFloor, hCeiling⟩⟩ :=
    continuation_cases hFirst
  · obtain ⟨c, _, rfl, hc, -⟩ := exists_of_followers hRest
    exact encode_two hb (by omega)
  · obtain ⟨c, _, rfl, hc, hRest⟩ := exists_of_followers hRest
    obtain ⟨d, _, rfl, hd, -⟩ := exists_of_followers hRest
    exact encode_three hb (by omega) (by omega) (by omega) hd
  · obtain ⟨c, _, rfl, hc, hRest⟩ := exists_of_followers hRest
    obtain ⟨d, _, rfl, hd, hRest⟩ := exists_of_followers hRest
    obtain ⟨e, _, rfl, he, -⟩ := exists_of_followers hRest
    exact encode_four hb (by omega) (by omega) (by omega) hd he

end Character

-- ---------------------------------------------------------------------------
-- Texts
-- ---------------------------------------------------------------------------

theorem encode_decodeUtf8From {fuel pos : Nat} {bs : List UInt8} {cs : List Char}
    (hFuel : bs.length ≤ fuel) (h : decodeUtf8From fuel pos bs = .ok cs) :
    cs.flatMap String.utf8EncodeChar = bs := by
  induction fuel generalizing pos bs cs with
  | zero =>
    obtain rfl := List.length_eq_zero_iff.mp (Nat.le_zero.mp hFuel)
    cases h
    rfl
  | succ fuel ih =>
    cases bs with
    | nil =>
      cases h
      rfl
    | cons b bs =>
      rw [List.length_cons] at hFuel
      -- what comes after the first character
      have hNext {pos : Nat} {front rest : List UInt8} {c : Char} (hSplit : b :: bs = front ++ rest)
          (hFront : String.utf8EncodeChar c = front) (hShorter : rest.length ≤ fuel)
          (h : (decodeUtf8From fuel pos rest).map (c :: ·) = .ok cs) :
          cs.flatMap String.utf8EncodeChar = b :: bs := by
        cases hRest : decodeUtf8From fuel pos rest with
        | error why => simp [hRest, Except.map] at h
        | ok ds =>
          obtain rfl : c :: ds = cs := by simpa [hRest, Except.map] using h
          rw [List.flatMap_cons, hFront, ih hShorter hRest, hSplit]
      unfold decodeUtf8From at h
      simp only at h
      split at h
      · exact hNext (show b :: bs = [b] ++ bs from rfl) (encode_one ‹_›) (by omega) h
      · split at h
        · cases h
        · rename_i count low high hFirst
          split at h
          · rename_i hCount
            refine hNext (by rw [List.cons_append, List.take_append_drop])
              (encode_character hFirst hCount) ?_ h
            rw [List.length_drop]
            omega
          · split at h <;> cases h

/-- A text is written as the bytes that it was read from. -/
theorem encode_decode {bs : List UInt8} {text : String} (h : utf8.decode bs = .ok text) :
    utf8.encode text = bs := by
  cases hText : decodeUtf8From bs.length 0 bs with
  | error why => simp [decode, hText, Except.map] at h
  | ok cs =>
    obtain rfl : String.ofList cs = text := by simpa [decode, hText, Except.map] using h
    simpa [encode] using encode_decodeUtf8From (Nat.le_refl _) hText

/-- Different texts are written as different bytes. -/
theorem encode_inj {s s' : String} (h : utf8.encode s = utf8.encode s') : s = s' := by
  have hBytes (s : String) : s.toByteArray = (utf8.encode s).toByteArray := by
    conv => lhs; rw [← String.ofList_toList (s := s)]
    rw [String.toByteArray_ofList]
    rfl
  rw [← String.toByteArray_inj, hBytes, hBytes, h]

end Encoding

end SourceMigration
