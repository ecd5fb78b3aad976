import Mathlib.Data.List.TakeWhile
import VaultConsole.Proofs.Json.Grammar
import VaultConsole.Decimal.Text

/-!
# The tokens of numbers

What an integer (`isNumber_toString`) and a finite floating-point number (`isNumber_render`) are written as are
numbers of JSON. The token of an integer has neither a point nor an exponent, and that of a floating-point number
has one of them, so that the two are told apart (`toString_ne_render`).
-/

namespace VaultConsole.Json

open Decimal

/-! ## Digits -/

theorem isDigits_toDigits (n : Nat) : IsDigits (Nat.toDigits 10 n) :=
  ⟨Nat.toDigits_ne_nil, fun _ => isDigit_of_mem⟩

theorem isDigits_zero : IsDigits ['0'] := ⟨List.cons_ne_nil _ _, List.forall_mem_singleton.2 rfl⟩

theorem isWhole_toDigits (n : Nat) : IsWhole (Nat.toDigits 10 n) := by
  refine ⟨isDigits_toDigits n, fun zero => ?_⟩
  obtain rfl := head_toDigits n zero
  exact Nat.toDigits_zero 10

/-- A digit on its own may be a zero. -/
theorem isWhole_singleton {d : Char} (digit : d.isDigit = true) : IsWhole [d] := by
  refine ⟨⟨List.cons_ne_nil d [], ?_⟩, fun zero => ?_⟩
  · rwa [List.forall_mem_singleton]
  · rw [Option.some.inj zero]

theorem isDigits_replicate_append {ds : List Char} (digits : IsDigits ds) (n : Nat) :
    IsDigits (List.replicate n '0' ++ ds) := by
  refine ⟨List.append_ne_nil_of_right_ne_nil _ digits.1, List.forall_mem_append.2 ⟨fun c zero => ?_, digits.2⟩⟩
  rw [List.eq_of_mem_replicate zero]
  rfl

/-! ## Integers -/

theorem isNumber_toString (n : Int) : IsNumber (toString n).toList := by
  have number {sign : List Char} (m : Nat) (signed : sign = [] ∨ sign = ['-']) :
      IsNumber (sign ++ (Nat.toDigits 10 m ++ ([] ++ []))) :=
    .mk signed (isWhole_toDigits m) .none .none
  cases n with
  | ofNat m => simpa [toString, Int.repr] using number m (.inl rfl)
  | negSucc m => simpa [toString, Int.repr] using number (m + 1) (.inr rfl)

theorem toString_plain (n : Int) : '.' ∉ (toString n).toList ∧ 'e' ∉ (toString n).toList := by
  have other (m : Nat) {c : Char} (noDigit : c.isDigit = false) : c ∉ Nat.toDigits 10 m := by
    intro member
    exact Bool.noConfusion (noDigit.symm.trans (isDigit_of_mem member))
  cases n with
  | ofNat m => simp [toString, Int.repr, other]
  | negSucc m => simp [toString, Int.repr, other]

/-! ## Floating-point numbers -/

/-- Digits that are not all zeros are left when the zeros at their end are taken away. -/
theorem strip_digits_ne_zero {s : Scientific} (solid : s.digits ≠ 0) : s.strip.digits ≠ 0 := by
  rw [Scientific.strip]
  simp only [if_neg solid]
  generalize zeros : ((digitsOf s.digits).reverse.takeWhile (· == '0')).length = k
  -- The first digit is no zero.
  have fewer : k < (digitsOf s.digits).length := by
    by_contra all
    have whole : (digitsOf s.digits).reverse.takeWhile (· == '0') = (digitsOf s.digits).reverse :=
      (List.takeWhile_prefix _).eq_of_length_le (by rw [List.length_reverse]; omega)
    rw [List.takeWhile_eq_self_iff] at whole
    obtain ⟨d, ds, spelled⟩ := List.exists_cons_of_ne_nil (@Nat.toDigits_ne_nil s.digits 10)
    have zero := whole d (List.mem_reverse.2 (by rw [digitsOf, spelled]; exact List.mem_cons_self))
    exact solid (head_toDigits s.digits (by rw [spelled, eq_of_beq zero]; rfl))
  have large : tenTo k ≤ s.digits := by
    obtain rfl | positive := Nat.eq_zero_or_pos k
    · exact Nat.one_le_iff_ne_zero.2 solid
    · by_contra small
      exact absurd ((Nat.length_toDigits_le_iff (by decide) positive).2 (Nat.lt_of_not_le small))
        (Nat.not_le_of_lt fewer)
  exact (Nat.div_pos large (Nat.pow_pos (by decide))).ne'

/-- A decimal that is zero is written without an exponent. -/
def IsTidy (s : Scientific) : Prop := s.digits = 0 → s.exponent = 0

theorem isTidy_strip (s : Scientific) : IsTidy s.strip := by
  intro zero
  by_cases zero' : s.digits = 0
  · rw [Scientific.strip]
    simp [zero']
  · exact absurd zero (strip_digits_ne_zero zero')

theorem isTidy_shortest (tie : Tie) (m : Nat) (e : Int) : IsTidy (shortest tie m e) := by
  rw [shortest]
  split
  · exact fun _ => rfl
  · exact isTidy_strip _

/-- Positional notation: digits, and a fraction after a point. -/
theorem positional_parts {s : Scientific} (tidy : IsTidy s) : ∃ whole ds,
    (s.positional true).toList = whole ++ '.' :: ds ∧ IsWhole whole ∧ IsDigits ds := by
  have digits := isDigits_toDigits s.digits
  rw [Scientific.positional]
  simp only
  split
  · refine ⟨digitsOf s.digits ++ List.replicate s.exponent.toNat '0', ['0'], by simp, ?_,
      isDigits_zero⟩
    by_cases zero : s.digits = 0
    · rw [zero, tidy zero]
      exact isWhole_singleton rfl
    · refine ⟨⟨List.append_ne_nil_of_left_ne_nil digits.1 _, List.forall_mem_append.2 ⟨digits.2, ?_⟩⟩, ?_⟩
      · intro c member
        rw [List.eq_of_mem_replicate member]
        rfl
      · intro first
        rw [digitsOf, List.head?_append_of_ne_nil _ digits.1] at first
        exact absurd (head_toDigits _ first) zero
  · rename_i negative
    split
    · rename_i short
      obtain ⟨d, ds, spelled⟩ := List.exists_cons_of_ne_nil digits.1
      rw [digitsOf] at short ⊢
      refine ⟨(Nat.toDigits 10 s.digits).take ((Nat.toDigits 10 s.digits).length - (-s.exponent).toNat),
        (Nat.toDigits 10 s.digits).drop ((Nat.toDigits 10 s.digits).length - (-s.exponent).toNat), by simp,
        ⟨⟨?_, fun c member => digits.2 c (List.mem_of_mem_take member)⟩, ?_⟩,
        ?_, fun c member => digits.2 c (List.mem_of_mem_drop member)⟩
      · rw [← List.length_pos_iff, List.length_take]
        omega
      · intro first
        rw [List.head?_take, if_neg (by omega)] at first
        -- Zero has no digit before the last.
        rw [head_toDigits _ first] at short
        rw [Nat.toDigits_zero, List.length_singleton] at short
        omega
      · rw [← List.length_pos_iff, List.length_drop]
        omega
    · exact ⟨['0'], List.replicate ((-s.exponent).toNat - (digitsOf s.digits).length) '0' ++ digitsOf s.digits,
        by simp, isWhole_singleton rfl, isDigits_replicate_append digits _⟩

/-- Notation with an exponent: a digit, a fraction or none, and the exponent. -/
theorem withExponent_parts (s : Scientific) : ∃ whole fraction exponent,
    (s.withExponent true).toList = whole ++ (fraction ++ 'e' :: exponent) ∧ IsWhole whole ∧
    IsFraction fraction ∧ IsExponent ('e' :: exponent) := by
  have digits := isDigits_toDigits s.digits
  obtain ⟨d, ds, spelled⟩ := List.exists_cons_of_ne_nil digits.1
  rw [spelled] at digits
  have first : d.isDigit = true := digits.2 d List.mem_cons_self
  -- The exponent has a sign.
  obtain ⟨sign, signed, power⟩ : ∃ sign, (sign = [] ∨ sign = ['+'] ∨ sign = ['-']) ∧
      ("e" ++ (if s.top < 0 then "-" else if true then "+" else "") ++ toString s.top.natAbs).toList =
        'e' :: (sign ++ Nat.toDigits 10 s.top.natAbs) := by
    by_cases negative : s.top < 0
    · exact ⟨['-'], by simp, by simp [negative]⟩
    · exact ⟨['+'], by simp, by simp [negative]⟩
  have exponent : IsExponent ('e' :: (sign ++ Nat.toDigits 10 s.top.natAbs)) :=
    .letter (.inl rfl) signed (isDigits_toDigits _)
  cases ds with
  | nil =>
    refine ⟨[d], [], _, ?_, isWhole_singleton first, .none, exponent⟩
    rw [List.nil_append, ← power]
    simp [Scientific.withExponent, digitsOf, spelled]
  | cons d' ds =>
    refine ⟨[d], '.' :: d' :: ds, _, ?_, isWhole_singleton first, .point ⟨List.cons_ne_nil _ _, ?_⟩, exponent⟩
    · rw [← power]
      simp [Scientific.withExponent, digitsOf, spelled]
    · exact fun c member => digits.2 c (List.mem_cons_of_mem d member)

/-- **A finite floating-point number is written as a number**, with a point or an exponent. -/
theorem isNumber_render {bits : UInt64} {x : Decimal.Dyadic} (finite : Binary64.ofBits bits = .finite x) :
    IsNumber (FloatText.json.render bits).toList ∧
    ('.' ∈ (FloatText.json.render bits).toList ∨ 'e' ∈ (FloatText.json.render bits).toList) := by
  obtain ⟨sign, signed, spelled⟩ : ∃ sign, (sign = [] ∨ sign = ['-']) ∧
      (if x.negative then "-" else "").toList = sign := by
    cases x.negative with
    | true => exact ⟨_, .inr rfl, rfl⟩
    | false => exact ⟨_, .inl rfl, rfl⟩
  -- The exponent says which of two forms is written: with a point, or with an exponent.
  rw [FloatText.render, finite]
  simp only
  split
  · obtain ⟨whole, ds, positional, isWhole, digits⟩ :=
      positional_parts (isTidy_shortest FloatText.json.tie x.mantissa x.exponent)
    have number := IsNumber.mk signed isWhole (.point digits) .none
    rw [String.toList_append, spelled]
    simp only [FloatText.json] at positional ⊢
    rw [positional]
    refine ⟨?_, .inl (by simp)⟩
    simpa using number
  · obtain ⟨whole, fraction, exponent, written, isWhole, isFraction, isExponent⟩ :=
      withExponent_parts (shortest FloatText.json.tie x.mantissa x.exponent)
    have number := IsNumber.mk signed isWhole isFraction isExponent
    rw [String.toList_append, spelled]
    simp only [FloatText.json] at written ⊢
    rw [written]
    exact ⟨number, .inr (by simp)⟩

/-- An integer and a floating-point number are never written alike. -/
theorem toString_ne_render (n : Int) {bits : UInt64} {x : Decimal.Dyadic} (finite : Binary64.ofBits bits = .finite x) :
    toString n ≠ FloatText.json.render bits := by
  intro same
  obtain ⟨noPoint, noExponent⟩ := toString_plain n
  rw [same] at noPoint noExponent
  exact (isNumber_render finite).2.elim noPoint noExponent

end VaultConsole.Json
