import VaultConsole.Config.Environment
import VaultConsole.Proofs.Digits

/-!
# What the variables of the environment name

The value of a variable is a text, and a text may name a memory limit (`NamesLimit`) or a level (`NamesLevel`).
The readers of the variables accept just these texts (`limitOf?_eq_some`, `levelOf?_eq_some`).
-/

namespace VaultConsole.Environment

/-- A text names a memory limit: decimal digits, with a plus sign before them or without one, whose number is no
greater than a configuration can name. Zeros may come first. -/
def NamesLimit (text : String) (n : Nat) : Prop :=
  ∃ digits : List Char, (text.toList = digits ∨ text.toList = '+' :: digits) ∧ digits ≠ [] ∧
    (∀ c ∈ digits, c.isDigit = true) ∧ Nat.ofDigitChars 10 digits 0 = n ∧ n ≤ 18446744073709551615

/-- **The memory limits that are accepted.** -/
theorem limitOf?_eq_some {text : String} {n : Nat} : limitOf? text = some n ↔ NamesLimit text n := by
  have read : ∀ digits, (Decimal.natOfDigits? 10 digits).filter (· ≤ ConsoleConfig.maxMemoryLimit) = some n ↔
      digits ≠ [] ∧ (∀ c ∈ digits, c.isDigit = true) ∧ Nat.ofDigitChars 10 digits 0 = n ∧ n ≤ 18446744073709551615 := by
    intro digits
    rw [Option.filter_eq_some_iff, Decimal.natOfDigits?_eq_some, decide_eq_true_eq, and_assoc, and_assoc]
    rfl
  unfold limitOf? NamesLimit
  split
  · rename_i digits signed
    rw [read]
    constructor
    · exact fun number => ⟨digits, .inr signed, number⟩
    · rintro ⟨digits', spelled | spelled, within, number⟩
      · -- A plus sign is no digit.
        rw [signed] at spelled
        exact absurd (number.1 '+' (spelled ▸ List.mem_cons_self)) (by decide)
      · rw [signed] at spelled
        obtain rfl := (List.cons.inj spelled).2
        exact ⟨within, number⟩
  · rename_i unsigned
    rw [read]
    constructor
    · exact fun number => ⟨_, .inl rfl, number⟩
    · rintro ⟨digits', rfl | spelled, number⟩
      · exact number
      · exact absurd spelled (unsigned digits')

/-- The names of levels. -/
def levelNames : List (String × Level) :=
  [("trace", .trace), ("debug", .debug), ("info", .info), ("warn", .warn), ("warning", .warn), ("error", .error)]

/-- A text names a level: it is a name of the level, but for the case of ASCII letters. -/
def NamesLevel (text : String) (level : Level) : Prop :=
  ∃ name, (name, level) ∈ levelNames ∧ text.toList.map Char.toLower = name.toList

/-- **The levels that are accepted.** -/
theorem levelOf?_eq_some {text : String} {level : Level} : levelOf? text = some level ↔ NamesLevel text level := by
  have lowered : ∀ name : String, text.toList.map Char.toLower = name.toList ↔
      String.ofList (text.toList.map Char.toLower) = name := by
    intro name
    rw [← String.toList_inj, String.toList_ofList]
  simp only [NamesLevel, lowered, levelOf?]
  generalize String.ofList (text.toList.map Char.toLower) = name
  constructor
  · intro read
    refine ⟨name, ?_, rfl⟩
    split at read
    all_goals cases read
    all_goals decide
  · rintro ⟨_, listed, rfl⟩
    simp only [levelNames, List.mem_cons, Prod.mk.injEq, List.not_mem_nil, or_false] at listed
    obtain ⟨rfl, rfl⟩ | ⟨rfl, rfl⟩ | ⟨rfl, rfl⟩ | ⟨rfl, rfl⟩ | ⟨rfl, rfl⟩ | ⟨rfl, rfl⟩ := listed
    all_goals rfl

end VaultConsole.Environment
