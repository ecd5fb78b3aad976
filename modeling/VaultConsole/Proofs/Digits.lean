import VaultConsole.Decimal.Numeral

/-!
# Digits that are read as numbers

Digits are taken up to a character that is none (`takeWhile_append`). Characters are read as a number just if
they are digits, and at least one (`natOfDigits?_eq_some`). The digits of a number are read as that number
(`natOfDigits?_toDigits`), and begin with a zero only for zero.
-/

namespace VaultConsole

/-- Characters of a kind are taken up to the first character of another kind. -/
theorem takeWhile_append {kind : Char → Bool} {cs rest : List Char} (all : ∀ c ∈ cs, kind c = true)
    (stop : ∀ c ∈ rest.head?, kind c = false) :
    (cs ++ rest).takeWhile kind = cs ∧ (cs ++ rest).dropWhile kind = rest := by
  rw [List.takeWhile_append_of_pos all, List.dropWhile_append_of_pos all]
  cases rest with
  | nil => simp
  | cons c r => simp [stop c rfl]

namespace Decimal

theorem digitValue?_of_isDigit {c : Char} (digit : c.isDigit = true) : digitValue? 10 c = some (c.toNat - 48) := by
  have bounds : 48 ≤ c.toNat ∧ c.toNat ≤ 57 := Char.isDigit_iff_toNat.1 digit
  have small : c.toNat - 48 < 10 := by omega
  have same : isDigit c = true := digit
  simp [digitValue?, same, small]

/-- What has a value as a decimal digit is one: letters are worth ten at least. -/
theorem isDigit_of_digitValue? {c : Char} {d : Nat} (value : digitValue? 10 c = some d) : c.isDigit = true := by
  have large : ∀ (low : Char) (k : Nat), low ≤ c → k + 10 ≤ low.toNat →
      (some (c.toNat - k)).filter (· < 10) ≠ some d := by
    intro low k letter worth small
    have above : low.toNat ≤ c.toNat := letter
    simp only [Option.filter_some, decide_eq_true_eq] at small
    split at small
    · omega
    · cases small
  cases digit : isDigit c with
  | true => exact digit
  | false =>
    simp only [digitValue?, digit, Bool.false_eq_true, if_false] at value
    split at value
    · rename_i lower
      simp only [Bool.and_eq_true, decide_eq_true_eq] at lower
      exact absurd value (large 'a' 87 lower.1 (by decide))
    · split at value
      · rename_i upper
        simp only [Bool.and_eq_true, decide_eq_true_eq] at upper
        exact absurd value (large 'A' 55 upper.1 (by decide))
      · cases value

/-- The number that digits make up. -/
theorem digitsFrom_of_isDigit {cs : List Char} (digits : ∀ c ∈ cs, c.isDigit = true) (value : Nat) :
    digitsFrom 10 value cs = some (Nat.ofDigitChars 10 cs value) := by
  induction cs generalizing value with
  | nil => rfl
  | cons c cs ih =>
    rw [digitsFrom, digitValue?_of_isDigit (digits c List.mem_cons_self), Option.bind_some,
      ih fun d hd => digits d (List.mem_cons_of_mem c hd), Nat.mul_comm]
    rfl

theorem isDigit_of_digitsFrom {cs : List Char} {value n : Nat} (read : digitsFrom 10 value cs = some n) :
    ∀ c ∈ cs, c.isDigit = true := by
  induction cs generalizing value with
  | nil => exact fun _ member => absurd member List.not_mem_nil
  | cons c cs ih =>
    rw [digitsFrom, Option.bind_eq_some_iff] at read
    obtain ⟨d, first, later⟩ := read
    rw [List.forall_mem_cons]
    exact ⟨isDigit_of_digitValue? first, ih later⟩

/-- **What is read as a number**: digits, of which there is at least one. -/
theorem natOfDigits?_eq_some {cs : List Char} {n : Nat} :
    natOfDigits? 10 cs = some n ↔ cs ≠ [] ∧ (∀ c ∈ cs, c.isDigit = true) ∧ Nat.ofDigitChars 10 cs 0 = n := by
  rw [natOfDigits?]
  constructor
  · intro read
    split at read
    · cases read
    · rename_i filled
      have digits := isDigit_of_digitsFrom read
      rw [digitsFrom_of_isDigit digits] at read
      exact ⟨by simpa using filled, digits, Option.some.inj read⟩
  · rintro ⟨filled, digits, value⟩
    rw [if_neg (by simpa using filled), digitsFrom_of_isDigit digits, value]

/-! ## The digits of a number -/

theorem isDigit_of_mem {n : Nat} {c : Char} (member : c ∈ Nat.toDigits 10 n) : c.isDigit = true :=
  Nat.isDigit_of_mem_toDigits (by decide) (by decide) member

theorem natOfDigits?_toDigits (n : Nat) : natOfDigits? 10 (Nat.toDigits 10 n) = some n :=
  natOfDigits?_eq_some.2 ⟨Nat.toDigits_ne_nil, fun _ => isDigit_of_mem,
    Nat.ofDigitChars_toDigits (by decide) (by decide)⟩

/-- The digits of a number begin with no zero, unless it is zero. -/
theorem head_toDigits (n : Nat) : (Nat.toDigits 10 n).head? = some '0' → n = 0 := by
  induction n using Nat.strongRecOn with
  | ind n ih =>
    by_cases small : n < 10
    · rw [Nat.toDigits_of_lt_base small]
      have digits : ∀ n < 10, [n.digitChar].head? = some '0' → n = 0 := by decide
      exact digits n small
    · have next := ih (n / 10) (by omega)
      obtain ⟨d, ds, spelled⟩ := List.exists_cons_of_ne_nil (@Nat.toDigits_ne_nil (n / 10) 10)
      rw [spelled] at next
      rw [Nat.toDigits_of_base_le (by decide) (Nat.le_of_not_lt small), spelled]
      intro zero
      have absent := next zero
      omega

end Decimal

end VaultConsole
