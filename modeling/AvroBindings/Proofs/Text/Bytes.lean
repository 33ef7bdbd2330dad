import Mathlib.Data.String.Basic

/-!
# The order of texts by their bytes

Texts are compared by their characters.  In UTF-8 they are in the same order by their bytes.

## Main Definitions

* `Text.bytes` — a text in UTF-8.
* `Text.FirstBelow` — bytes that differ from others, first in a smaller one.

## Main Statements

* `Text.firstBelow_of_lt` — the bytes of a character and those of a later one.
* `Text.bytes_lt_iff` — the two orders agree.

## Design Notes

No character has bytes that start those of another, so two texts differ in their bytes where
they differ in their characters.  There a character with fewer bytes has the smaller first byte,
and among characters with equally many the bytes are digits.
-/

namespace AvroBindings.Text

/-- The bytes of a text in UTF-8. -/
def bytes (text : String) : List UInt8 := text.toUTF8.data.toList

/-- They are those of its characters in a row. -/
theorem bytes_eq (text : String) : bytes text = text.toList.flatMap String.utf8EncodeChar := by
  rw [bytes, String.toUTF8_eq_toByteArray, ← String.utf8Encode_toList, List.utf8Encode]
  simp

/-! ## Characters -/

/-- **Bytes differ from others first in a smaller one.** -/
inductive FirstBelow : List UInt8 → List UInt8 → Prop
  | here {a b : UInt8} (h : a < b) (as bs : List UInt8) : FirstBelow (a :: as) (b :: bs)
  | later (a : UInt8) {as bs : List UInt8} (h : FirstBelow as bs) :
      FirstBelow (a :: as) (a :: bs)

/-- What follows does not matter then. -/
theorem FirstBelow.append_lt {as bs : List UInt8} (h : FirstBelow as bs)
    (more others : List UInt8) :
    as ++ more < bs ++ others := by
  induction h with
  | here h as bs => exact List.cons_lt_cons_iff.2 (.inl h)
  | later a _ ih => exact List.cons_lt_cons_iff.2 (.inr ⟨rfl, ih⟩)

theorem ofNat_lt_ofNat {m n : Nat} (h : m < n) (hn : n < 256) :
    UInt8.ofNat m < UInt8.ofNat n := by
  rw [UInt8.lt_iff_toNat_lt, UInt8.toNat_ofNat', UInt8.toNat_ofNat']
  omega

/-- Equal digits are followed, different ones decide. -/
theorem firstBelow_digit {m n : Nat} {as bs : List UInt8} (h : m ≤ n) (hn : n < 256)
    (hlater : m = n → FirstBelow as bs) :
    FirstBelow (UInt8.ofNat m :: as) (UInt8.ofNat n :: bs) := by
  rcases Nat.lt_or_eq_of_le h with hless | heq
  · exact .here (ofNat_lt_ofNat hless hn) as bs
  · exact heq ▸ .later _ (hlater heq)

/-- **The bytes of a character are below those of a later one.** -/
theorem firstBelow_of_lt {c d : Char} (h : c < d) :
    FirstBelow (String.utf8EncodeChar c) (String.utf8EncodeChar d) := by
  have hless : c.val.toNat < d.val.toNat := h
  have hlast : d.val.toNat < 1114112 := by
    rcases d.valid with hlow | ⟨-, hhigh⟩
    · exact Nat.lt_trans hlow (by decide)
    · exact hhigh
  unfold String.utf8EncodeChar
  generalize c.val.toNat = m at hless
  generalize d.val.toNat = n at hless hlast
  dsimp only
  split
  next => -- one byte
    split
    next => exact .here (ofNat_lt_ofNat hless (by omega)) _ _
    next =>
      split
      next => exact .here (ofNat_lt_ofNat (by omega) (by omega)) _ _
      next =>
        split
        next => exact .here (ofNat_lt_ofNat (by omega) (by omega)) _ _
        next => exact .here (ofNat_lt_ofNat (by omega) (by omega)) _ _
  next =>
    rw [if_neg (by omega : ¬n ≤ 127)]
    split
    next => -- two bytes
      split
      next =>
        refine firstBelow_digit (by omega) (by omega) fun _ => ?_
        exact .here (ofNat_lt_ofNat (by omega) (by omega)) _ _
      next =>
        split
        next => exact .here (ofNat_lt_ofNat (by omega) (by omega)) _ _
        next => exact .here (ofNat_lt_ofNat (by omega) (by omega)) _ _
    next =>
      rw [if_neg (by omega : ¬n ≤ 2047)]
      split
      next => -- three bytes
        split
        next =>
          refine firstBelow_digit (by omega) (by omega) fun _ =>
            firstBelow_digit (by omega) (by omega) fun _ => ?_
          exact .here (ofNat_lt_ofNat (by omega) (by omega)) _ _
        next => exact .here (ofNat_lt_ofNat (by omega) (by omega)) _ _
      next => -- four bytes
        rw [if_neg (by omega : ¬n ≤ 65535)]
        refine firstBelow_digit (by omega) (by omega) fun _ =>
          firstBelow_digit (by omega) (by omega) fun _ => ?_
        refine firstBelow_digit (by omega) (by omega) fun _ => ?_
        exact .here (ofNat_lt_ofNat (by omega) (by omega)) _ _

/-! ## Texts -/

theorem flatMap_lt_of_lt {chars others : List Char} (h : chars < others) :
    chars.flatMap String.utf8EncodeChar < others.flatMap String.utf8EncodeChar := by
  induction chars generalizing others with
  | nil =>
      cases others with
      | nil => exact absurd h (List.lt_irrefl _)
      | cons d rest =>
          obtain ⟨b, bs, hbytes⟩ :=
            List.exists_cons_of_ne_nil (String.utf8EncodeChar_ne_nil (c := d))
          rw [List.flatMap_cons, hbytes]
          exact List.nil_lt_cons _ _
  | cons c chars ih =>
      cases others with
      | nil => exact absurd h (List.not_lt_nil _)
      | cons d rest =>
          rw [List.flatMap_cons, List.flatMap_cons]
          rcases List.cons_lt_cons_iff.1 h with hless | ⟨rfl, hrest⟩
          · exact (firstBelow_of_lt hless).append_lt _ _
          · exact List.append_left_lt (ih hrest)

/-- **Texts are in the order of their bytes.** -/
theorem bytes_lt_iff {text other : String} : bytes text < bytes other ↔ text < other := by
  have hforth : ∀ {text other : String}, text < other → bytes text < bytes other := by
    intro text other h
    rw [bytes_eq, bytes_eq]
    exact flatMap_lt_of_lt (String.lt_iff.1 h)
  refine ⟨fun h => ?_, hforth⟩
  rcases lt_trichotomy text other with hless | rfl | hgreater
  · exact hless
  · exact absurd h (List.lt_irrefl _)
  · exact absurd (hforth hgreater) (List.lt_asymm h)

example : bytes "é" = [195, 169] ∧ bytes "z" < bytes "é" := by decide +kernel

end AvroBindings.Text
