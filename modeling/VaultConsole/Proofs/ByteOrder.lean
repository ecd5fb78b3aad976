import Mathlib.Data.List.Basic
import VaultConsole.Proofs.Utf8

/-!
# The order of texts and of their bytes

Texts are ordered by their characters, and their bytes in the same way (`toUTF8_lt`): of two characters, the
bytes of the greater one are the greater ones at the first place where they differ.
-/

namespace VaultConsole.Text.Utf8

/-- The bytes of a character, by how many there are. -/
theorem encodeChar_cases (c : Char) :
    (c.toNat < 0x80 ∧ String.utf8EncodeChar c = [UInt8.ofNat c.toNat]) ∨
    (0x80 ≤ c.toNat ∧ c.toNat < 0x800 ∧ String.utf8EncodeChar c =
      [UInt8.ofNat (c.toNat / 64 + 0xC0), UInt8.ofNat (c.toNat % 64 + 0x80)]) ∨
    (0x800 ≤ c.toNat ∧ c.toNat < 0x10000 ∧ String.utf8EncodeChar c =
      [UInt8.ofNat (c.toNat / 4096 + 0xE0), UInt8.ofNat (c.toNat / 64 % 64 + 0x80),
        UInt8.ofNat (c.toNat % 64 + 0x80)]) ∨
    (0x10000 ≤ c.toNat ∧ c.toNat < 0x110000 ∧ String.utf8EncodeChar c =
      [UInt8.ofNat (c.toNat / 262144 + 0xF0), UInt8.ofNat (c.toNat / 4096 % 64 + 0x80),
        UInt8.ofNat (c.toNat / 64 % 64 + 0x80), UInt8.ofNat (c.toNat % 64 + 0x80)]) := by
  have valid := isValidChar_toNat c
  have hn : c.val.toNat = c.toNat := rfl
  unfold String.utf8EncodeChar
  simp only [hn]
  generalize c.toNat = n at valid
  split
  · exact .inl ⟨by omega, rfl⟩
  · split
    · refine .inr (.inl ⟨by omega, by omega, ?_⟩)
      -- The lead byte keeps only as many bits as the range of the character leaves.
      rw [Nat.mod_eq_of_lt (show n / 64 < 0x20 by omega)]
    · split
      · refine .inr (.inr (.inl ⟨by omega, by omega, ?_⟩))
        rw [Nat.mod_eq_of_lt (show n / 4096 < 0x10 by omega)]
      · refine .inr (.inr (.inr ⟨by omega, by omega, ?_⟩))
        rw [Nat.mod_eq_of_lt (show n / 262144 < 0x08 by omega)]

theorem ofNat_lt_ofNat {a b : Nat} (ha : a < 256) (hb : b < 256) : UInt8.ofNat a < UInt8.ofNat b ↔ a < b := by
  rw [UInt8.lt_iff_toNat_lt, UInt8.toNat_ofNat', UInt8.toNat_ofNat', Nat.mod_eq_of_lt ha, Nat.mod_eq_of_lt hb]

/-- The bytes of a greater character are greater, whatever comes after them. -/
theorem encodeChar_lt {c d : Char} (less : c < d) (x y : List UInt8) :
    String.utf8EncodeChar c ++ x < String.utf8EncodeChar d ++ y := by
  have less : c.toNat < d.toNat := less
  -- Equal bytes come from equal numbers, so that a place where the bytes differ comes first.
  have first {a b : Nat} {u v : List UInt8} (ha : a < 256) (hb : b < 256) (le : a ≤ b) (later : a = b → u < v) :
      UInt8.ofNat a :: u < UInt8.ofNat b :: v := by
    rw [List.cons_lt_cons_iff, ofNat_lt_ofNat ha hb]
    obtain lt | rfl := Nat.lt_or_eq_of_le le
    · exact .inl lt
    · exact .inr ⟨rfl, later rfl⟩
  obtain ⟨hc, ec⟩ | ⟨lc, hc, ec⟩ | ⟨lc, hc, ec⟩ | ⟨lc, hc, ec⟩ := encodeChar_cases c <;>
  obtain ⟨hd, ed⟩ | ⟨ld, hd, ed⟩ | ⟨ld, hd, ed⟩ | ⟨ld, hd, ed⟩ := encodeChar_cases d <;>
  rw [ec, ed] <;> simp only [List.cons_append, List.nil_append]
  all_goals
    repeat (refine first (by omega) (by omega) (by omega) fun same => ?_)
    all_goals omega

/-- **A greater text has greater bytes.** -/
theorem toUTF8_lt {s t : String} (less : s < t) : s.toUTF8.toList < t.toUTF8.toList := by
  rw [toList_toUTF8, toList_toUTF8]
  rw [String.lt_iff] at less
  generalize s.toList = cs at less
  generalize t.toList = ds at less
  induction less with
  | nil =>
    rename_i d ds
    obtain ⟨a, tail, bytes, -⟩ := encode_cons d ds
    rw [bytes]
    exact List.nil_lt_cons _ _
  | cons later ih =>
    simp only [encode, List.flatMap_cons] at ih ⊢
    exact List.append_left_lt ih
  | rel less =>
    simp only [encode, List.flatMap_cons]
    exact encodeChar_lt less _ _

end VaultConsole.Text.Utf8
