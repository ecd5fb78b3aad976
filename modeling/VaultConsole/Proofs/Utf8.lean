import Mathlib.Data.List.Basic
import VaultConsole.Text.Bytes
import VaultConsole.Text.Utf8

/-!
# Reading and writing UTF-8

Strict reading is the inverse of writing: `decodeOnto_encode` reads back every text, and
`decodeOnto_eq_ok` says that what is read spells the bytes. Both go piece by piece:
`piece_encode` is the first piece of an encoded character, and `encode_of_piece` recovers the bytes
of a character that a piece gives.
-/

namespace VaultConsole.Text.Utf8

/-! ## Tails -/

theorem toNat_continuation {k : Nat} (hk : k < 64) : (UInt8.ofNat (k + 0x80)).toNat = k + 0x80 := by
  rw [UInt8.toNat_ofNat']
  omega

theorem bits_continuation {k : Nat} (hk : k < 64) : (UInt8.ofNat (k + 0x80)).toNat - 0x80 = k := by
  rw [toNat_continuation hk, Nat.add_sub_cancel]

/-- A byte after the lead byte adds six bits. -/
theorem tails_continuation (n taken value : Nat) {k : Nat} (hk : k < 64) (r : List UInt8) :
    tails (n + 1) taken value (UInt8.ofNat (k + 0x80) :: r) =
      tails n (taken + 1) (value * 64 + k) r := by
  have hb := toNat_continuation hk
  have low : (0x80 : UInt8) ≤ UInt8.ofNat (k + 0x80) := by
    rw [UInt8.le_iff_toNat_le, hb]
    exact Nat.le_add_left _ _
  have high : UInt8.ofNat (k + 0x80) ≤ 0xBF := by
    rw [UInt8.le_iff_toNat_le, hb]
    show k + 0x80 ≤ 0xBF
    omega
  simp only [tails, low, high, decide_true, Bool.and_self, if_true, hb, Nat.add_sub_cancel]

/-- A byte that is taken as a tail is six bits above the first tail. -/
theorem exists_continuation {b : UInt8} (h : (0x80 ≤ b && b ≤ 0xBF) = true) :
    ∃ k < 64, b = UInt8.ofNat (k + 0x80) := by
  simp only [Bool.and_eq_true, decide_eq_true_eq, UInt8.le_iff_toNat_le] at h
  obtain ⟨low, high⟩ := h
  have low' : 0x80 ≤ b.toNat := low
  have high' : b.toNat ≤ 0xBF := high
  refine ⟨b.toNat - 0x80, by omega, ?_⟩
  rw [Nat.sub_add_cancel low', UInt8.ofNat_toNat]

/-- What a character takes in tails: as many bytes as were promised, each of six bits. -/
theorem tails_eq_char {n taken value : Nat} {r : List UInt8} {c : Char} {m : Nat}
    (h : tails n taken value r = .char c m) :
    ∃ ks : List Nat, ks.length = n ∧ (∀ k ∈ ks, k < 64) ∧ m = taken + n ∧
      r.take n = ks.map (fun k => UInt8.ofNat (k + 0x80)) ∧
      c = Char.ofNat (ks.foldl (fun v k => v * 64 + k) value) := by
  induction n generalizing taken value r with
  | zero =>
    cases h
    exact ⟨[], rfl, by simp, rfl, rfl, rfl⟩
  | succ n ih =>
    cases r with
    | nil => cases h
    | cons b r =>
      simp only [tails] at h
      split at h
      case isTrue hb =>
        -- The bits of this tail come before those of the later ones.
        obtain ⟨ks, len, small, hm, bytes, hc⟩ := ih h
        obtain ⟨k, hk, rfl⟩ := exists_continuation hb
        have hv := bits_continuation hk
        refine ⟨k :: ks, by simp [len], ?_, by omega, ?_, ?_⟩
        · intro k' hk'
          cases hk' with
          | head => exact hk
          | tail _ hk' => exact small k' hk'
        · rw [List.take_succ_cons, bytes, List.map_cons]
        · rw [hc, List.foldl_cons, hv]
      case isFalse => cases h

/-! ## Lead bytes -/

/-- The lead bytes of two, three and four bytes, with the bits that they contribute and the range of the
bits of the second byte. -/
theorem lead?_eq_some {a : UInt8} {l : Lead} (h : lead? a = some l) :
    (l.more = 0 ∧ 2 ≤ l.bits ∧ l.bits < 32 ∧ a = UInt8.ofNat (l.bits + 0xC0) ∧
      l.low = 0x80 ∧ l.high = 0xBF) ∨
    (l.more = 1 ∧ l.bits < 16 ∧ a = UInt8.ofNat (l.bits + 0xE0) ∧
      l.low = (if l.bits = 0 then 0xA0 else 0x80) ∧ l.high = (if l.bits = 13 then 0x9F else 0xBF)) ∨
    (l.more = 2 ∧ l.bits < 5 ∧ a = UInt8.ofNat (l.bits + 0xF0) ∧
      l.low = (if l.bits = 0 then 0x90 else 0x80) ∧ l.high = (if l.bits = 4 then 0x8F else 0xBF)) := by
  have every : ∀ n < 256, ∀ l ∈ lead? (UInt8.ofNat n),
      (l.more = 0 ∧ 2 ≤ l.bits ∧ l.bits < 32 ∧ UInt8.ofNat n = UInt8.ofNat (l.bits + 0xC0) ∧
        l.low = 0x80 ∧ l.high = 0xBF) ∨
      (l.more = 1 ∧ l.bits < 16 ∧ UInt8.ofNat n = UInt8.ofNat (l.bits + 0xE0) ∧
        l.low = (if l.bits = 0 then 0xA0 else 0x80) ∧
        l.high = (if l.bits = 13 then 0x9F else 0xBF)) ∨
      (l.more = 2 ∧ l.bits < 5 ∧ UInt8.ofNat n = UInt8.ofNat (l.bits + 0xF0) ∧
        l.low = (if l.bits = 0 then 0x90 else 0x80) ∧
        l.high = (if l.bits = 4 then 0x8F else 0xBF)) := by
    decide +kernel
  have := every a.toNat a.toNat_lt l (by rw [UInt8.ofNat_toNat]; exact h)
  rwa [UInt8.ofNat_toNat] at this

theorem lead?_two {v : Nat} (low : 2 ≤ v) (high : v < 32) :
    lead? (UInt8.ofNat (v + 0xC0)) = some ⟨0x80, 0xBF, 0, v⟩ := by
  have every : ∀ v < 32, 2 ≤ v → lead? (UInt8.ofNat (v + 0xC0)) = some ⟨0x80, 0xBF, 0, v⟩ := by
    decide
  exact every v high low

theorem lead?_three {v : Nat} (high : v < 16) :
    lead? (UInt8.ofNat (v + 0xE0)) =
      some ⟨if v = 0 then 0xA0 else 0x80, if v = 13 then 0x9F else 0xBF, 1, v⟩ := by
  have every : ∀ v < 16, lead? (UInt8.ofNat (v + 0xE0)) =
      some ⟨if v = 0 then 0xA0 else 0x80, if v = 13 then 0x9F else 0xBF, 1, v⟩ := by
    decide
  exact every v high

theorem lead?_four {v : Nat} (high : v < 5) :
    lead? (UInt8.ofNat (v + 0xF0)) =
      some ⟨if v = 0 then 0x90 else 0x80, if v = 4 then 0x8F else 0xBF, 2, v⟩ := by
  have every : ∀ v < 5, lead? (UInt8.ofNat (v + 0xF0)) =
      some ⟨if v = 0 then 0x90 else 0x80, if v = 4 then 0x8F else 0xBF, 2, v⟩ := by
    decide
  exact every v high

/-! ## The first piece -/

/-- The numbers that are characters. -/
theorem isValidChar_toNat (c : Char) : c.toNat < 0xD800 ∨ (0xDFFF < c.toNat ∧ c.toNat < 0x110000) := by
  have h := c.valid
  simp only [UInt32.isValidChar, Nat.isValidChar] at h
  exact h

/-- A lead byte whose second byte is in its range gives the tails after it. -/
theorem piece_lead {v k : Nat} {base : Nat} {l : Lead} (hv : 0x80 ≤ v + base) (hb : v + base < 0x100)
    (h : lead? (UInt8.ofNat (v + base)) = some l) (hk : k < 64)
    (low : l.low.toNat ≤ k + 0x80) (high : k + 0x80 ≤ l.high.toNat) (r : List UInt8) :
    piece (UInt8.ofNat (v + base)) (UInt8.ofNat (k + 0x80) :: r) =
      tails l.more 1 (l.bits * 64 + k) r := by
  have ha : ¬ UInt8.ofNat (v + base) < 0x80 := by
    rw [UInt8.lt_iff_toNat_lt, UInt8.toNat_ofNat', Nat.mod_eq_of_lt (by omega)]
    show ¬ v + base < 0x80
    omega
  have hn := toNat_continuation hk
  have low' : l.low ≤ UInt8.ofNat (k + 0x80) := by rwa [UInt8.le_iff_toNat_le, hn]
  have high' : UInt8.ofNat (k + 0x80) ≤ l.high := by rwa [UInt8.le_iff_toNat_le, hn]
  simp only [piece, if_neg ha, h, low', high', decide_true, Bool.and_self, if_true, hn,
    Nat.add_sub_cancel]

/-- The first piece of an encoded character is that character, with all of its bytes. -/
theorem piece_encode (c : Char) (rest : List UInt8) :
    ∃ a tail, String.utf8EncodeChar c = a :: tail ∧ piece a (tail ++ rest) = .char c tail.length := by
  have valid := isValidChar_toNat c
  have back : Char.ofNat c.toNat = c := Char.ofNat_toNat c
  have hn : c.val.toNat = c.toNat := rfl
  unfold String.utf8EncodeChar
  simp only [hn]
  -- The number of the character says how many bytes it takes; each case is division with remainder.
  generalize c.toNat = n at valid back
  subst back
  split
  case isTrue one =>
    refine ⟨_, _, rfl, ?_⟩
    have hb : (UInt8.ofNat n).toNat = n := by
      rw [UInt8.toNat_ofNat']
      omega
    have small : UInt8.ofNat n < 0x80 := by
      rw [UInt8.lt_iff_toNat_lt, hb]
      show n < 0x80
      omega
    simp only [piece, if_pos small, hb, List.length_nil]
  case isFalse one =>
    split
    case isTrue two =>
      refine ⟨_, _, rfl, ?_⟩
      rw [Nat.mod_eq_of_lt (show n / 64 < 0x20 by omega), List.cons_append,
        piece_lead (by omega) (by omega) (lead?_two (by omega) (by omega)) (by omega)
          (by show 0x80 ≤ _; omega) (by show _ ≤ 0xBF; omega)]
      simp only [tails, List.length_cons, List.length_nil]
      rw [show n / 64 * 64 + n % 64 = n by omega]
    case isFalse two =>
      split
      case isTrue three =>
        refine ⟨_, _, rfl, ?_⟩
        rw [Nat.mod_eq_of_lt (show n / 4096 < 0x10 by omega), List.cons_append, List.cons_append,
          piece_lead (by omega) (by omega) (lead?_three (by omega)) (by omega)
            (by simp only; split <;> simp; omega) (by simp only; split <;> simp <;> omega),
          tails_continuation _ _ _ (by omega)]
        simp only [tails, List.length_cons, List.length_nil]
        rw [show (n / 4096 * 64 + n / 64 % 64) * 64 + n % 64 = n by omega]
      case isFalse three =>
        refine ⟨_, _, rfl, ?_⟩
        rw [Nat.mod_eq_of_lt (show n / 262144 < 0x08 by omega), List.cons_append, List.cons_append,
          List.cons_append,
          piece_lead (by omega) (by omega) (lead?_four (by omega)) (by omega)
            (by simp only; split <;> simp; omega) (by simp only; split <;> simp <;> omega),
          tails_continuation _ _ _ (by omega), tails_continuation _ _ _ (by omega)]
        simp only [tails, List.length_cons, List.length_nil]
        rw [show ((n / 262144 * 64 + n / 4096 % 64) * 64 + n / 64 % 64) * 64 + n % 64 = n by omega]

/-! ## The bytes of a piece -/

theorem toNat_ofNat {n : Nat} (h : n < 0xD800 ∨ (0xDFFF < n ∧ n < 0x110000)) :
    (Char.ofNat n).toNat = n := by
  have valid : n.isValidChar := h
  rewrite [Char.ofNat, dif_pos valid]
  rfl

/-- The bytes of the characters of one, two, three and four bytes. -/
theorem encode_one {n : Nat} (high : n ≤ 0x7F) :
    String.utf8EncodeChar (Char.ofNat n) = [UInt8.ofNat n] := by
  have hn : (Char.ofNat n).val.toNat = n := toNat_ofNat (by omega)
  simp only [String.utf8EncodeChar, hn, if_pos high]

theorem encode_two {a b : Nat} (low : 2 ≤ a) (ha : a < 32) (hb : b < 64) :
    String.utf8EncodeChar (Char.ofNat (a * 64 + b)) =
      [UInt8.ofNat (a + 0xC0), UInt8.ofNat (b + 0x80)] := by
  have hn : (Char.ofNat (a * 64 + b)).val.toNat = a * 64 + b := toNat_ofNat (by omega)
  simp only [String.utf8EncodeChar, hn]
  rw [if_neg (by omega), if_pos (by omega), show (a * 64 + b) / 64 % 0x20 = a by omega,
    show (a * 64 + b) % 64 = b by omega]

theorem encode_three {a b c : Nat} (ha : a < 16) (hb : b < 64) (hc : c < 64)
    (long : a = 0 → 32 ≤ b) (noSurrogate : a = 13 → b < 32) :
    String.utf8EncodeChar (Char.ofNat ((a * 64 + b) * 64 + c)) =
      [UInt8.ofNat (a + 0xE0), UInt8.ofNat (b + 0x80), UInt8.ofNat (c + 0x80)] := by
  have hn : (Char.ofNat ((a * 64 + b) * 64 + c)).val.toNat = (a * 64 + b) * 64 + c :=
    toNat_ofNat (by omega)
  simp only [String.utf8EncodeChar, hn]
  rw [if_neg (by omega), if_neg (by omega), if_pos (by omega),
    show ((a * 64 + b) * 64 + c) / 4096 % 0x10 = a by omega,
    show ((a * 64 + b) * 64 + c) / 64 % 64 = b by omega,
    show ((a * 64 + b) * 64 + c) % 64 = c by omega]

theorem encode_four {a b c d : Nat} (ha : a < 5) (hb : b < 64) (hc : c < 64) (hd : d < 64)
    (long : a = 0 → 16 ≤ b) (short : a = 4 → b < 16) :
    String.utf8EncodeChar (Char.ofNat (((a * 64 + b) * 64 + c) * 64 + d)) =
      [UInt8.ofNat (a + 0xF0), UInt8.ofNat (b + 0x80), UInt8.ofNat (c + 0x80),
        UInt8.ofNat (d + 0x80)] := by
  have hn : (Char.ofNat (((a * 64 + b) * 64 + c) * 64 + d)).val.toNat =
      ((a * 64 + b) * 64 + c) * 64 + d := toNat_ofNat (by omega)
  simp only [String.utf8EncodeChar, hn]
  rw [if_neg (by omega), if_neg (by omega), if_neg (by omega),
    show (((a * 64 + b) * 64 + c) * 64 + d) / 262144 % 0x08 = a by omega,
    show (((a * 64 + b) * 64 + c) * 64 + d) / 4096 % 64 = b by omega,
    show (((a * 64 + b) * 64 + c) * 64 + d) / 64 % 64 = c by omega,
    show (((a * 64 + b) * 64 + c) * 64 + d) % 64 = d by omega]

/-- The second byte of a character has six bits, within the range that the lead byte gives. -/
theorem exists_second {low high b : UInt8} (hl : 0x80 ≤ low.toNat) (hh : high.toNat ≤ 0xBF)
    (h : (low ≤ b && b ≤ high) = true) :
    ∃ k < 64, b = UInt8.ofNat (k + 0x80) ∧ low.toNat ≤ k + 0x80 ∧ k + 0x80 ≤ high.toNat := by
  simp only [Bool.and_eq_true, decide_eq_true_eq, UInt8.le_iff_toNat_le] at h
  obtain ⟨above, below⟩ := h
  refine ⟨b.toNat - 0x80, by omega, ?_, by omega, by omega⟩
  rw [Nat.sub_add_cancel (by omega), UInt8.ofNat_toNat]

/-- What the first two bytes of a longer character contribute: six bits in the second one, and none that a shorter
character or a surrogate would have. -/
theorem second_cases {a b : UInt8} {l : Lead} (lead : lead? a = some l)
    (second : (l.low ≤ b && b ≤ l.high) = true) :
    ∃ k < 64, b = UInt8.ofNat (k + 0x80) ∧
      ((l.more = 0 ∧ 2 ≤ l.bits ∧ l.bits < 32 ∧ a = UInt8.ofNat (l.bits + 0xC0)) ∨
      (l.more = 1 ∧ l.bits < 16 ∧ a = UInt8.ofNat (l.bits + 0xE0) ∧
        (l.bits = 0 → 32 ≤ k) ∧ (l.bits = 13 → k < 32)) ∨
      (l.more = 2 ∧ l.bits < 5 ∧ a = UInt8.ofNat (l.bits + 0xF0) ∧
        (l.bits = 0 → 16 ≤ k) ∧ (l.bits = 4 → k < 16))) := by
  obtain ⟨more, low, high, first, hl, hh⟩ | ⟨more, bits, first, hl, hh⟩ | ⟨more, bits, first, hl, hh⟩ :=
    lead?_eq_some lead
  · rw [hl, hh] at second
    obtain ⟨k, hk, spelled, -, -⟩ := exists_second (by decide) (by decide) second
    exact ⟨k, hk, spelled, .inl ⟨more, low, high, first⟩⟩
  · rw [hl, hh] at second
    obtain ⟨k, hk, spelled, above, below⟩ := exists_second (by split <;> decide) (by split <;> decide) second
    refine ⟨k, hk, spelled, .inr (.inl ⟨more, bits, first, fun zero => ?_, fun thirteen => ?_⟩)⟩
    · rw [if_pos zero] at above
      exact Nat.le_of_add_le_add_right (b := 0x80) above
    · rw [if_pos thirteen] at below
      exact Nat.lt_of_add_lt_add_right (n := 0x80) (Nat.lt_succ_of_le below)
  · rw [hl, hh] at second
    obtain ⟨k, hk, spelled, above, below⟩ := exists_second (by split <;> decide) (by split <;> decide) second
    refine ⟨k, hk, spelled, .inr (.inr ⟨more, bits, first, fun zero => ?_, fun four => ?_⟩)⟩
    · rw [if_pos zero] at above
      exact Nat.le_of_add_le_add_right (b := 0x80) above
    · rw [if_pos four] at below
      exact Nat.lt_of_add_lt_add_right (n := 0x80) (Nat.lt_succ_of_le below)

/-- A longer character is spelled by a lead byte, a second byte in the range that this gives, and tails. -/
theorem encode_of_tails {a b : UInt8} {r : List UInt8} {l : Lead} {c : Char} {n : Nat} (lead : lead? a = some l)
    (second : (l.low ≤ b && b ≤ l.high) = true)
    (h : tails l.more 1 (l.bits * 64 + (b.toNat - 0x80)) r = .char c n) :
    String.utf8EncodeChar c = a :: (b :: r).take n := by
  obtain ⟨ks, len, small, rfl, bytes, rfl⟩ := tails_eq_char h
  obtain ⟨k, hk, rfl, cases⟩ := second_cases lead second
  rw [bits_continuation hk, Nat.add_comm 1, List.take_succ_cons, bytes]
  -- As many tails as the lead byte promises: none, one or two.
  obtain ⟨more, low, high, rfl⟩ | ⟨more, bits, rfl, long, noSurrogate⟩ | ⟨more, bits, rfl, long, short⟩ := cases
  · rw [more] at len
    cases List.length_eq_zero_iff.1 len
    exact encode_two low high hk
  · rw [more] at len
    obtain ⟨k₂, rfl⟩ := List.length_eq_one_iff.1 len
    exact encode_three bits hk (small k₂ (by simp)) long noSurrogate
  · rw [more] at len
    obtain ⟨k₂, k₃, rfl⟩ := List.length_eq_two.1 len
    exact encode_four bits hk (small k₂ (by simp)) (small k₃ (by simp)) long short

/-- The character of a piece is spelled by the bytes of the piece. -/
theorem encode_of_piece {a : UInt8} {r : List UInt8} {c : Char} {n : Nat}
    (h : piece a r = .char c n) : String.utf8EncodeChar c = a :: r.take n := by
  unfold piece at h
  split at h
  case isTrue small =>
    cases h
    have ha : a.toNat < 0x80 := by rwa [UInt8.lt_iff_toNat_lt] at small
    rw [encode_one (by omega), UInt8.ofNat_toNat, List.take_zero]
  case isFalse large =>
    split at h
    case h_1 => cases h
    case h_2 l lead =>
      split at h
      case h_1 => cases h
      case h_2 b r =>
        split at h
        case isFalse => cases h
        case isTrue second => exact encode_of_tails lead second h

/-! ## Whole texts -/

/-- The bytes that characters are written as. -/
def encode (cs : List Char) : List UInt8 := cs.flatMap String.utf8EncodeChar

/-- The first piece of what is written is the first character. -/
theorem encode_cons (c : Char) (cs : List Char) : ∃ a tail, encode (c :: cs) = a :: (tail ++ encode cs) ∧
    piece a (tail ++ encode cs) = .char c tail.length := by
  obtain ⟨a, tail, spelled, first⟩ := piece_encode c (encode cs)
  refine ⟨a, tail, ?_, first⟩
  simp only [encode, List.flatMap_cons, spelled, List.cons_append]

/-- What is written is read back, after what was read before. -/
theorem decodeOnto_encode (cs read : List Char) (start : Nat) :
    decodeOnto read start (encode cs) = .ok (read.reverse ++ cs) := by
  induction cs generalizing read start with
  | nil => simp [encode, decodeOnto]
  | cons c cs ih =>
    obtain ⟨a, tail, bytes, first⟩ := encode_cons c cs
    rw [bytes, decodeOnto, first]
    simp only [List.drop_left]
    rw [ih, List.reverse_cons, List.append_assoc]
    rfl

/-- What is read, after what was read before, spells the bytes. -/
theorem decodeOnto_eq_ok {read out : List Char} {start : Nat} {bytes : List UInt8}
    (h : decodeOnto read start bytes = .ok out) :
    ∃ cs, out = read.reverse ++ cs ∧ encode cs = bytes := by
  fun_induction decodeOnto read start bytes with
  | case1 read start =>
    cases h
    exact ⟨[], by simp, rfl⟩
  | case2 read start a r c n first ih =>
    obtain ⟨cs, rfl, spelled⟩ := ih h
    refine ⟨c :: cs, by simp, ?_⟩
    simp only [encode, List.flatMap_cons] at spelled ⊢
    rw [encode_of_piece first, spelled, List.cons_append, List.take_append_drop]
  | case3 => cases h

/-- Characters are read from bytes exactly if the bytes are what they are written as. -/
theorem decodeOnto_eq_ok_iff {cs : List Char} {bytes : List UInt8} :
    decodeOnto [] 0 bytes = .ok cs ↔ encode cs = bytes := by
  constructor
  · intro h
    obtain ⟨cs', rfl, spelled⟩ := decodeOnto_eq_ok h
    exact spelled
  · rintro rfl
    exact decodeOnto_encode cs [] 0

/-- The bytes of a text are those of its characters. -/
theorem toList_toUTF8 (s : String) : s.toUTF8.toList = encode s.toList := by
  have bytes : s.toUTF8 = (encode s.toList).toByteArray := String.utf8Encode_toList.symm
  rw [bytes, toList_toByteArray]

/-- A text is read from its bytes, and from no others. -/
theorem decode_eq_ok {bytes : ByteArray} {s : String} : decode bytes = .ok s ↔ s.toUTF8 = bytes := by
  rw [decode]
  constructor
  · intro h
    cases read : decodeOnto [] 0 bytes.toList with
    | error fault =>
      rw [read] at h
      cases h
    | ok cs =>
      rw [read] at h
      obtain rfl : String.ofList cs = s := Except.ok.inj h
      rw [decodeOnto_eq_ok_iff] at read
      rw [← toByteArray_toList bytes, ← read]
      exact String.toByteArray_ofList
  · rintro rfl
    rw [toList_toUTF8, decodeOnto_encode]
    exact congrArg Except.ok String.ofList_toList

end VaultConsole.Text.Utf8
