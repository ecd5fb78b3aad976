import Mathlib.Data.List.Basic
import VaultConsole.Config.FromJson
import VaultConsole.Json.Printer
import VaultConsole.Proofs.Digits

/-!
# JSON that is written and read

What is written in JSON is read as the setting that it stands for (`IsValue`): a text from its quotes, a natural
number from its digits, and an object, in every layout whose parts are set apart by blanks (`IsBlank`), from its
entries, if each of their values is read.
-/

namespace VaultConsole.Setting

namespace Json

open VaultConsole.Json (escape quote write writeEntries Layout)

/-! ## Blanks -/

theorem skip_append {blanks : List Char} (spaced : ∀ c ∈ blanks, isSpace c = true) (r : List Char) :
    skip (blanks ++ r) = skip r :=
  List.dropWhile_append_of_pos spaced

theorem skip_cons {c : Char} (solid : isSpace c = false) (r : List Char) : skip (c :: r) = c :: r := by
  rw [skip, List.dropWhile_cons_of_neg (by simp [solid])]

/-! ## Texts -/

/-- The code points of characters are no surrogates. -/
theorem joined?_map (cs : List Char) : joined? (cs.map Char.toNat) = some cs := by
  -- Only surrogates are joined.
  have scalar : ∀ c : Char, c.toNat < 0xD800 ∨ 0xDFFF < c.toNat := by
    intro c
    obtain low | high := c.valid
    · exact .inl low
    · exact .inr high.1
  induction cs with
  | nil => rfl
  | cons c cs ih =>
    cases cs with
    | nil => simp [joined?, scalar c]
    | cons d cs =>
      rw [List.map_cons] at ih
      simp [joined?, scalar c, ih]

/-- How a character is written: as itself, or as an escape of it. -/
theorem escape_cases (c : Char) :
    (escape c = [c] ∧ c ≠ '"' ∧ c ≠ '\\' ∧ ¬c.toNat < 0x20) ∨
    ∃ w, escape c = '\\' :: w ∧ ∀ r, escaped? (w ++ r) = some (c.toNat, r) := by
  -- The control characters without a letter are escaped by four digits, of which there are 32 cases.
  have digits : ∀ n < 0x20, (Decimal.Rounded.hexDigits false 2 n).length = 2 ∧
      Decimal.natOfDigits? 16 ('0' :: '0' :: Decimal.Rounded.hexDigits false 2 n) = some n := by
    decide +kernel
  unfold escape
  split
  · exact .inr ⟨_, rfl, fun _ => rfl⟩
  · exact .inr ⟨_, rfl, fun _ => rfl⟩
  · exact .inr ⟨_, rfl, fun _ => rfl⟩
  · exact .inr ⟨_, rfl, fun _ => rfl⟩
  · exact .inr ⟨_, rfl, fun _ => rfl⟩
  · exact .inr ⟨_, rfl, fun _ => rfl⟩
  · exact .inr ⟨_, rfl, fun _ => rfl⟩
  · rename_i noQuote noBackslash _ _ _ _ _
    split
    · rename_i control
      obtain ⟨length, value⟩ := digits c.toNat control
      obtain ⟨a, b, spelled⟩ := List.length_eq_two.1 length
      rw [spelled] at value
      refine .inr ⟨_, rfl, fun r => ?_⟩
      simp [spelled, escaped?, value]
    · rename_i plain
      exact .inl ⟨rfl, noQuote, noBackslash, plain⟩

/-- The code points are read up to the closing quote. -/
theorem codePoints?_escape (cs : List Char) (seen : List Nat) {n : Nat} (r : List Char)
    (enough : (cs.flatMap escape).length < n) :
    codePoints? seen n (cs.flatMap escape ++ '"' :: r) = some (seen.reverse ++ cs.map Char.toNat, r) := by
  obtain ⟨n, rfl⟩ := Nat.exists_eq_add_one_of_ne_zero (Nat.ne_zero_of_lt enough)
  induction cs generalizing seen n with
  | nil => simp [codePoints?]
  | cons c cs ih =>
    -- Any fuel above the length of what is left is enough.
    have next : ∀ m, (cs.flatMap escape).length < m → codePoints? (c.toNat :: seen) m
        (cs.flatMap escape ++ '"' :: r) = some (seen.reverse ++ (c :: cs).map Char.toNat, r) := by
      intro m more
      obtain ⟨m, rfl⟩ := Nat.exists_eq_add_one_of_ne_zero (Nat.ne_zero_of_lt more)
      rw [ih (c.toNat :: seen) m more]
      simp
    rw [List.flatMap_cons, List.length_append] at enough
    rw [List.flatMap_cons, List.append_assoc]
    obtain ⟨spelled, noQuote, noBackslash, plain⟩ | ⟨w, spelled, escape⟩ := escape_cases c
    · rw [spelled] at enough ⊢
      rw [List.length_singleton] at enough
      rw [List.singleton_append, codePoints?, if_neg plain, next]
      · omega
      · exact noQuote
      · exact noBackslash
    · rw [spelled] at enough ⊢
      rw [List.length_cons] at enough
      rw [List.cons_append, codePoints?, escape]
      exact next n (by omega)

/-- A text is read from its quotes. -/
theorem text?_quote (s : String) (r : List Char) :
    text? (s.toList.flatMap escape ++ '"' :: r) = some (some s, r) := by
  have points := codePoints?_escape s.toList [] r
    (n := (s.toList.flatMap escape ++ '"' :: r).length) (by simp)
  rw [text?, points]
  simp [joined?_map]

/-! ## Values -/

/-- What may follow a value: nothing that could belong to a number. -/
def EndsValue (r : List Char) : Prop :=
  ∀ c ∈ r.head?, Decimal.isDigit c = false ∧ c ≠ '.' ∧ c ≠ 'e' ∧ c ≠ 'E'

/-- Blanks do not belong to a number. -/
theorem not_number_of_isSpace {c : Char} (space : isSpace c = true) :
    Decimal.isDigit c = false ∧ c ≠ '.' ∧ c ≠ 'e' ∧ c ≠ 'E' := by
  simp only [isSpace, Bool.or_eq_true, beq_iff_eq] at space
  obtain ((rfl | rfl) | rfl) | rfl := space
  · decide
  · decide
  · decide
  · decide

/-- A text that is read as a value. -/
structure IsValue (w : List Char) (v : Setting) : Prop where
  solid : ∃ c r, w = c :: r ∧ isSpace c = false
  read : ∀ n r, w.length ≤ n → EndsValue r → value? n (w ++ r) = some (v, r)

theorem IsValue.skip {w : List Char} {v : Setting} (value : IsValue w v) (r : List Char) :
    Json.skip (w ++ r) = w ++ r := by
  obtain ⟨c, w, rfl, solid⟩ := value.solid
  exact skip_cons solid _

theorem isValue_quote (s : String) : IsValue (quote s) (.text s) := by
  refine ⟨⟨'"', _, rfl, rfl⟩, fun n r enough _ => ?_⟩
  obtain ⟨n, rfl⟩ := Nat.exists_eq_add_one_of_ne_zero (show n ≠ 0 by
    rintro rfl
    cases enough)
  have read := text?_quote s r
  rw [quote, List.cons_append, List.append_assoc, List.singleton_append, value?, read]
  rfl

/-- A number is read from its digits. -/
theorem numeral?_toDigits (n : Nat) {r : List Char} (ends : EndsValue r) :
    numeral? (Nat.toDigits 10 n ++ r) = some (.natural n, r) := by
  have digits : ∀ c ∈ Nat.toDigits 10 n, c.isDigit = true := fun c => Decimal.isDigit_of_mem
  obtain ⟨d, ds, spelled⟩ := List.exists_cons_of_ne_nil (@Nat.toDigits_ne_nil n 10)
  have digit : d.isDigit = true := digits d (spelled ▸ List.mem_cons_self)
  have noSign : d ≠ '-' := by
    rintro rfl
    exact absurd digit (by decide)
  have after : (afterFraction? r).bind afterExponent? = some r := by
    cases r with
    | nil => rfl
    | cons c r =>
      obtain ⟨-, noPoint, noSmall, noLarge⟩ := ends c rfl
      -- A fraction would begin with a point, and an exponent with a letter.
      have fraction : afterFraction? (c :: r) = some (c :: r) := by
        rw [afterFraction?]
        intro r' same
        exact noPoint (List.cons.inj same).1
      rw [fraction, Option.bind_some, afterExponent?, if_neg (by simp [noSmall, noLarge])]
  have taken : (Nat.toDigits 10 n ++ r).takeWhile Decimal.isDigit = Nat.toDigits 10 n :=
    (takeWhile_append digits fun c first => (ends c first).1).1
  have number : number? (Nat.toDigits 10 n ++ r) = some (Nat.toDigits 10 n, true, r) := by
    rw [number?.eq_def]
    split
    · -- A zero that comes first is the whole number.
      rename_i zero
      rw [spelled] at zero
      obtain rfl : d = '0' := (List.cons.inj zero).1
      obtain rfl := Decimal.head_toDigits n (by rw [spelled]; rfl)
      simp [Nat.toDigits_zero, after]
    · simp [taken, Nat.toDigits_ne_nil, after]
  rw [numeral?]
  · simp [number, Decimal.natOfDigits?_toDigits]
  · intro r' same
    rw [spelled] at same
    exact noSign (List.cons.inj same).1

theorem isValue_toDigits (n : Nat) : IsValue (Nat.toDigits 10 n) (.natural n) := by
  have digits : ∀ c ∈ Nat.toDigits 10 n, c.isDigit = true := fun c => Decimal.isDigit_of_mem
  obtain ⟨d, ds, spelled⟩ := List.exists_cons_of_ne_nil (@Nat.toDigits_ne_nil n 10)
  have digit : d.isDigit = true := digits d (spelled ▸ List.mem_cons_self)
  have differs : ∀ c : Char, c.isDigit = false → d ≠ c := by
    rintro c other rfl
    rw [digit] at other
    cases other
  refine ⟨⟨d, ds, spelled, ?_⟩, fun fuel r enough ends => ?_⟩
  · simp [isSpace, differs ' ' rfl, differs '\n' rfl, differs '\t' rfl, differs '\r' rfl]
  · obtain ⟨fuel, rfl⟩ := Nat.exists_eq_add_one_of_ne_zero (show fuel ≠ 0 by
      rintro rfl
      rw [spelled] at enough
      cases enough)
    rw [value?, numeral?_toDigits n ends]
    -- Every other kind of value begins with a character of its own.
    all_goals
      intro r' same
      rw [spelled] at same
      exact differs _ rfl (List.cons.inj same).1

/-! ## Objects -/

/-- A layout that sets parts apart by blanks. -/
structure IsBlank (l : Layout) : Prop where
  line : ∀ depth, ∀ c ∈ l.line depth, isSpace c = true
  colon : ∃ before after, l.colon = before ++ ':' :: after ∧ (∀ c ∈ before, isSpace c = true) ∧
    ∀ c ∈ after, isSpace c = true

theorem isBlank_compact : IsBlank .compact :=
  ⟨fun _ _ member => absurd member List.not_mem_nil, [], [], rfl, by simp, by simp⟩

theorem isBlank_indented : IsBlank .indented := by
  refine ⟨fun depth c member => ?_, [], [' '], rfl, by simp, by simp [isSpace]⟩
  obtain rfl | space := List.mem_cons.1 member
  · rfl
  · rw [List.eq_of_mem_replicate space]
    rfl

theorem endsValue_cons {c : Char} (mark : c = ',' ∨ c = '\x7d') (r : List Char) : EndsValue (c :: r) := by
  intro d first
  obtain rfl : c = d := Option.some.inj first
  obtain rfl | rfl := mark
  · decide
  · decide

/-- A value of an object ends at a comma, at the closing bracket, or at blanks before either. -/
theorem endsValue_append {blanks : List Char} (spaced : ∀ c ∈ blanks, isSpace c = true) {c : Char}
    (mark : c = ',' ∨ c = '\x7d') (r : List Char) : EndsValue (blanks ++ c :: r) := by
  cases blanks with
  | nil => exact endsValue_cons mark r
  | cons b bs =>
    intro d first
    obtain rfl : b = d := Option.some.inj first
    exact not_number_of_isSpace (spaced b List.mem_cons_self)

/-- Blanks may come before an entry. -/
theorem entries?_append {blanks : List Char} (spaced : ∀ c ∈ blanks, isSpace c = true) (n : Nat)
    (seen : List (Option String × Setting)) (r : List Char) : entries? n seen (blanks ++ r) = entries? n seen r := by
  cases n with
  | zero => rfl
  | succ n => rw [entries?, entries?, skip_append spaced]

/-- An entry is read, and then what follows it: further entries, or the closing bracket. -/
theorem entries?_entry {l : Layout} (blank : IsBlank l) (depth : Nat) (key : String) {w : List Char} {v : Setting}
    (item : IsValue w v) {n : Nat} (enough : w.length ≤ n) (seen : List (Option String × Setting))
    {tail : List Char} (ends : EndsValue tail) :
    entries? (n + 1) seen (l.line depth ++ (quote key ++ (l.colon ++ (w ++ tail)))) =
      match skip tail with
      | ',' :: r => entries? n ((some key, v) :: seen) r
      | '\x7d' :: r => some (.table ((some key, v) :: seen).reverse, r)
      | _ => none := by
  obtain ⟨before, after, colon, spaced, spaced'⟩ := blank.colon
  have start : ∀ r, skip (l.line depth ++ (quote key ++ r)) = '"' :: (key.toList.flatMap escape ++ '"' :: r) := by
    intro r
    rw [skip_append (blank.line depth)]
    simp [quote, skip_cons (show isSpace '"' = false from rfl)]
  have middle : skip (l.colon ++ (w ++ tail)) = ':' :: (after ++ (w ++ tail)) := by
    rw [colon, List.append_assoc, skip_append spaced, List.cons_append, skip_cons rfl]
  have value : skip (after ++ (w ++ tail)) = w ++ tail := by
    rw [skip_append spaced', item.skip]
  rw [entries?, start]
  simp only [text?_quote, middle, value, item.read n tail enough ends, Option.bind_eq_bind, Option.bind_some]
  rfl

section

variable {ι : Type} {name : ι → String} {json : ι → Json} {value : ι → Setting} {l : Layout}

/-- The entries of an object are read up to the closing bracket, if each of their values is. -/
theorem entries?_write (blank : IsBlank l) {depth : Nat} (x : ι) (xs : List ι)
    (read : ∀ y ∈ x :: xs, IsValue (write l depth (json y)) (value y)) {close : List Char}
    (spaced : ∀ c ∈ close, isSpace c = true) (seen : List (Option String × Setting)) {n : Nat} (r : List Char)
    (enough : (write l depth (json x)).length +
      (writeEntries l depth (xs.map fun y => (name y, json y))).length < n) :
    entries? n seen (l.line depth ++ (quote (name x) ++ (l.colon ++ (write l depth (json x) ++
      (writeEntries l depth (xs.map fun y => (name y, json y)) ++ (close ++ '\x7d' :: r)))))) =
        some (.table (seen.reverse ++ (x :: xs).map fun y => (some (name y), value y)), r) := by
  obtain ⟨n, rfl⟩ := Nat.exists_eq_add_one_of_ne_zero (Nat.ne_zero_of_lt enough)
  have item := read x List.mem_cons_self
  induction xs generalizing x seen n with
  | nil =>
    -- After the last entry comes the closing bracket, and no comma.
    have left : skip (close ++ '\x7d' :: r) = '\x7d' :: r := by
      rw [skip_append spaced, skip_cons rfl]
    rw [List.map_nil, writeEntries, List.nil_append, entries?_entry blank depth (name x) item (by omega) seen
      (endsValue_append spaced (.inr rfl) r), left]
    simp
  | cons y ys ih =>
    have written : writeEntries l depth ((y :: ys).map fun y => (name y, json y)) = ',' :: (l.line depth ++
        (quote (name y) ++ (l.colon ++ (write l depth (json y) ++
          writeEntries l depth (ys.map fun y => (name y, json y)))))) := by
      simp [writeEntries]
    rw [written] at enough ⊢
    simp only [List.length_cons, List.length_append] at enough
    obtain ⟨n, rfl⟩ := Nat.exists_eq_add_one_of_ne_zero (show n ≠ 0 by omega)
    have later := ih y (fun z hz => read z (List.mem_cons_of_mem x hz)) ((some (name x), value x) :: seen) n
      (by omega) (read y (by simp))
    rw [List.cons_append, entries?_entry blank depth (name x) item (by omega) seen
      (endsValue_cons (.inl rfl) _), skip_cons rfl]
    simp only [List.append_assoc] at later ⊢
    rw [later]
    simp

/-- **An object is read from its entries**, if each of their values is. -/
theorem isValue_object (blank : IsBlank l) {depth : Nat} (xs : List ι)
    (read : ∀ x ∈ xs, IsValue (write l (depth + 1) (json x)) (value x)) :
    IsValue (write l depth (.object (xs.map fun x => (name x, json x))))
      (.table (xs.map fun x => (some (name x), value x))) := by
  cases xs with
  | nil =>
    refine ⟨⟨'\x7b', _, rfl, rfl⟩, fun n r enough _ => ?_⟩
    obtain ⟨n, rfl⟩ := Nat.exists_eq_add_one_of_ne_zero (show n ≠ 0 by
      rintro rfl
      cases enough)
    rfl
  | cons x xs =>
    -- The fuel is the length of what is written, of which the bracket takes one.
    have written : write l depth (.object ((x :: xs).map fun x => (name x, json x))) = '\x7b' ::
        (l.line (depth + 1) ++ (quote (name x) ++ (l.colon ++ (write l (depth + 1) (json x) ++
          (writeEntries l (depth + 1) (xs.map fun x => (name x, json x)) ++ (l.line depth ++ ['\x7d'])))))) := by
      simp [write]
    refine ⟨⟨'\x7b', _, written, rfl⟩, fun n r enough _ => ?_⟩
    rw [written] at enough ⊢
    simp only [List.length_cons, List.length_append] at enough
    obtain ⟨n, rfl⟩ := Nat.exists_eq_add_one_of_ne_zero (show n ≠ 0 by omega)
    have inside := @entries?_write _ name _ _ _ blank _ x xs read _ (blank.line depth) [] n r (by omega)
    rw [entries?_append (blank.line (depth + 1))] at inside
    have start : ∀ r', skip (l.line (depth + 1) ++ (quote (name x) ++ r')) = quote (name x) ++ r' := by
      intro r'
      rw [skip_append (blank.line (depth + 1)), quote, List.cons_append, skip_cons rfl]
    simp only [List.cons_append, List.append_assoc, List.nil_append, value?, start]
    rw [quote, List.cons_append, List.append_assoc] at inside ⊢
    exact inside

end

end Json

/-- **A text is the setting that is read from it**, with blanks around it or none. -/
theorem readJson?_of_isValue {w : List Char} {v : Setting} (value : Json.IsValue w v) {before after : List Char}
    (spaced : ∀ c ∈ before, Json.isSpace c = true) (spaced' : ∀ c ∈ after, Json.isSpace c = true) :
    readJson? (String.ofList (before ++ (w ++ after))) = some v := by
  have ends : Json.EndsValue after := by
    intro c first
    cases after with
    | nil => cases first
    | cons d r =>
      obtain rfl : d = c := Option.some.inj first
      exact Json.not_number_of_isSpace (spaced' d List.mem_cons_self)
  have left : Json.skip after = [] := by
    have all := Json.skip_append spaced' []
    rwa [List.append_nil] at all
  have read := value.read (2 * (w ++ after).length + 1) after (by rw [List.length_append]; omega) ends
  rw [readJson?, String.toList_ofList, Json.skip_append spaced, value.skip]
  simp only [read, left, Option.bind_eq_bind, Option.bind_some, List.isEmpty_nil, if_true]
  rfl

end VaultConsole.Setting
