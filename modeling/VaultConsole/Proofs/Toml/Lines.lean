import Mathlib.Data.List.DropRight
import VaultConsole.Proofs.Digits
import VaultConsole.Proofs.Toml.Quoting
import VaultConsole.Toml.Document

/-!
# Lines that are written and read in TOML

A line that is written is read back as the statement that it stands for, whatever follows it (`IsLine`), and so
is a document that is lines one after the other (`lines?_flatten`). The lines of a configuration are headers
(`isLine_table`), fields whose values are texts or numbers (`isLine_assignment`), and lines without either
(`isLine_end`). Blanks may stand around every part of a line, and a comment at its end.
-/

namespace VaultConsole.Toml

/-! ## Numbers -/

/-- Digits alone have no underscores among them. -/
theorem ungrouped?_of_isDigit {cs : List Char} (filled : cs ≠ []) (digits : ∀ c ∈ cs, c.isDigit = true) :
    ungrouped? 10 cs = .some cs := by
  induction cs with
  | nil => exact absurd rfl filled
  | cons c cs ih =>
    have value := Decimal.digitValue?_of_isDigit (digits c List.mem_cons_self)
    cases cs with
    | nil => simp [ungrouped?, value]
    | cons d cs =>
      have later : ungrouped? 10 (d :: cs) = .some (d :: cs) :=
        ih (List.cons_ne_nil d cs) fun e he => digits e (List.mem_cons_of_mem c he)
      -- An underscore would be between two digits.
      have plain : d ≠ '_' := by
        rintro rfl
        exact absurd (digits '_' (List.mem_cons_of_mem c List.mem_cons_self)) (by decide)
      rw [ungrouped?, later]
      · simp [value]
      · simp
      · intro r same
        exact absurd (List.cons.inj same).1 plain

/-- The digits of a number are read as that number. -/
theorem integer?_toDigits (n : Nat) : integer? (Nat.toDigits 10 n) = some (n : Int) := by
  have digits : ∀ c ∈ Nat.toDigits 10 n, c.isDigit = true := fun c => Decimal.isDigit_of_mem
  have value := Decimal.natOfDigits?_toDigits n
  have whole : wholeDigits? (Nat.toDigits 10 n) = some (Nat.toDigits 10 n) := by
    rw [wholeDigits?, ungrouped?_of_isDigit Nat.toDigits_ne_nil digits]
    by_cases zero : n = 0
    · subst zero
      rfl
    · have first : (Nat.toDigits 10 n).head? ≠ some '0' := zero ∘ Decimal.head_toDigits n
      simp [Option.filter, first]
  have unsigned : Decimal.takeSign (Nat.toDigits 10 n) = (false, Nat.toDigits 10 n) := by
    unfold Decimal.takeSign
    split
    · rename_i sign
      exact absurd (digits '-' (sign ▸ List.mem_cons_self)) (by decide)
    · rename_i sign
      exact absurd (digits '+' (sign ▸ List.mem_cons_self)) (by decide)
    · rfl
  -- Neither a sign nor the mark of another base is a digit.
  unfold integer?
  split
  · rename_i based
    exact absurd (digits 'x' (based ▸ by simp)) (by decide)
  · rename_i based
    exact absurd (digits 'o' (based ▸ by simp)) (by decide)
  · rename_i based
    exact absurd (digits 'b' (based ▸ by simp)) (by decide)
  · simp [unsigned, whole, value]

theorem isWordChar_of_isDigit {c : Char} (digit : c.isDigit = true) : isWordChar c = true := by
  simp [isWordChar, Char.isAlphanum, digit]

/-- Digits alone are no date. -/
theorem isDate_of_isDigit {cs : List Char} (digits : ∀ c ∈ cs, c.isDigit = true) : isDate cs = false := by
  -- A date would have a dash after the year.
  have noDash : ∀ n, after? '-' (cs.drop n) = none := by
    intro n
    cases left : cs.drop n with
    | nil => rfl
    | cons d r =>
      have digit : d.isDigit = true := digits d (List.mem_of_mem_drop (left ▸ List.mem_cons_self))
      have differs : '-' ≠ d := by
        rintro rfl
        exact absurd digit (by decide)
      simp [after?, differs]
  have undated : afterDate? cs = none := by
    rw [afterDate?]
    cases year : field? 4 0 9999 cs with
    | none => rfl
    | some found =>
      have rest : found.2 = cs.drop 4 := by
        unfold field? at year
        grind
      simp [rest, noDash 4]
  simp [isDate, undated]

/-- What may follow a value in a line: nothing, blanks, a comment, or the end of the line. -/
def EndsValue (rest : List Char) : Prop := ∀ c ∈ rest.head?, isSpace c = true ∨ c = '#' ∨ c = '\n' ∨ c = '\r'

/-- A number is taken as a word, which ends where the value ends. -/
theorem takeWord_digits {cs rest : List Char} (digits : ∀ c ∈ cs, c.isDigit = true) (ends : EndsValue rest) :
    takeWord (cs ++ rest) = (cs, rest) := by
  have chars : ∀ c ∈ cs, isWordChar c = true := fun c hc => isWordChar_of_isDigit (digits c hc)
  have stop : ∀ c ∈ rest.head?, isWordChar c = false := by
    intro c first
    obtain space | rfl | rfl | rfl := ends c first
    · simp only [isSpace, Bool.or_eq_true, beq_iff_eq] at space
      obtain rfl | rfl := space
      · decide
      · decide
    · decide
    · decide
    · decide
  rw [takeWord, (takeWhile_append chars stop).1, (takeWhile_append chars stop).2]
  simp only [isDate_of_isDigit digits, Bool.false_and, Bool.false_eq_true, if_false]
  split
  · rfl
  · rfl

/-! ## Names -/

/-- A name that is written as a key without quotes. -/
structure IsBare (name : String) : Prop where
  filled : name.toList ≠ []
  plain : ∀ c ∈ name.toList, isKeyChar c = true

theorem isBare_of_decide {name : String} (plain : (!name.toList.isEmpty && name.toList.all isKeyChar) = true) :
    IsBare name := by
  simp only [Bool.and_eq_true, Bool.not_eq_true', List.isEmpty_eq_false_iff, List.all_eq_true] at plain
  exact ⟨plain.1, plain.2⟩

/-- The characters of names have no other use at the start of a line. -/
theorem ne_of_isKeyChar {c d : Char} (plain : isKeyChar c = true) (other : isKeyChar d = false) : c ≠ d := by
  rintro rfl
  rw [plain] at other
  cases other

theorem isSpace_of_isKeyChar {c : Char} (plain : isKeyChar c = true) : isSpace c = false := by
  have noSpace : c ≠ ' ' := ne_of_isKeyChar plain (by decide)
  have noTab : c ≠ '\t' := ne_of_isKeyChar plain (by decide)
  simp [isSpace, noSpace, noTab]

/-- Blanks are no part of a name. -/
theorem skipSpace_cons {c : Char} (plain : isKeyChar c = true) (r : List Char) : skipSpace (c :: r) = c :: r :=
  skipSpace_solid (isSpace_of_isKeyChar plain) r

/-! ## Blanks -/

/-- Blanks within a line. -/
structure Blanks where
  chars : List Char
  spaced : ∀ c ∈ chars, isSpace c = true

namespace Blanks

/-- No blanks. -/
def none : Blanks := ⟨[], by simp⟩

/-- One space. -/
def one : Blanks := ⟨[' '], by simp [isSpace]⟩

theorem skip (b : Blanks) (r : List Char) : skipSpace (b.chars ++ r) = skipSpace r :=
  List.dropWhile_append_of_pos b.spaced

/-- What follows a name: blanks, or a character that no name has. -/
theorem head_isKeyChar (b : Blanks) {c : Char} (other : isKeyChar c = false) (r : List Char) :
    ∀ d ∈ (b.chars ++ c :: r).head?, isKeyChar d = false := by
  intro d first
  cases blanks : b.chars with
  | nil =>
    rw [blanks] at first
    obtain rfl : c = d := Option.some.inj first
    exact other
  | cons e es =>
    rw [blanks] at first
    obtain rfl : e = d := Option.some.inj first
    have space := b.spaced e (blanks ▸ List.mem_cons_self)
    cases plain : isKeyChar e with
    | false => rfl
    | true => rw [isSpace_of_isKeyChar plain] at space; cases space

end Blanks

/-- How a line ends: with blanks, a comment or none, and a newline that may have a carriage return. -/
structure LineEnd where
  blanks : Blanks
  comment? : Option (List Char)
  carriage : Bool
  plain : ∀ comment ∈ comment?, ∀ c ∈ comment, isPlain c = true

namespace LineEnd

/-- The newline itself. -/
def newline (e : LineEnd) : List Char := if e.carriage then ['\r', '\n'] else ['\n']

/-- The comment after its mark. -/
def comment (e : LineEnd) : List Char :=
  match e.comment? with
  | some comment => '#' :: comment
  | none => []

/-- The end of a line as it is written. -/
def chars (e : LineEnd) : List Char := e.blanks.chars ++ (e.comment ++ e.newline)

/-- A newline with nothing before it. -/
def bare : LineEnd := ⟨.none, none, false, by simp⟩

theorem afterNewline?_newline (e : LineEnd) (rest : List Char) : afterNewline? (e.newline ++ rest) = some rest := by
  rw [newline]
  cases e.carriage with
  | false => rfl
  | true => rfl

/-- What the newline begins with is neither blank nor plain, and no comment. -/
theorem newline_cons (e : LineEnd) : ∃ c r, e.newline = c :: r ∧ (c = '\n' ∨ c = '\r') := by
  rw [newline]
  cases e.carriage with
  | false => exact ⟨'\n', [], rfl, .inl rfl⟩
  | true => exact ⟨'\r', ['\n'], rfl, .inr rfl⟩

/-- What the end of a line begins with. -/
theorem endsValue (e : LineEnd) (rest : List Char) : EndsValue (e.chars ++ rest) := by
  obtain ⟨d, r, newline, starts⟩ := e.newline_cons
  intro c first
  rw [chars] at first
  -- The first character is a blank, that of a comment, or the line break.
  cases blanks : e.blanks.chars with
  | cons b bs =>
    rw [blanks] at first
    obtain rfl : b = c := Option.some.inj first
    exact .inl (e.blanks.spaced b (blanks ▸ List.mem_cons_self))
  | nil =>
    rw [blanks, comment] at first
    cases remark : e.comment? with
    | some remark =>
      simp only [remark] at first
      exact .inr (.inl (Option.some.inj first).symm)
    | none =>
      simp only [remark, newline] at first
      obtain rfl : d = c := Option.some.inj first
      exact .inr (.inr starts)

/-- After the blanks comes the comment, or the newline. -/
theorem skip_chars (e : LineEnd) (rest : List Char) :
    skipSpace (e.chars ++ rest) = e.comment ++ (e.newline ++ rest) := by
  obtain ⟨d, r, newline, starts⟩ := e.newline_cons
  have solid : isSpace d = false := by
    obtain rfl | rfl := starts
    · rfl
    · rfl
  rw [chars, List.append_assoc, e.blanks.skip, List.append_assoc, comment]
  cases e.comment? with
  | some remark => rfl
  | none => rw [newline, List.nil_append, List.cons_append, skipSpace_solid solid]

/-- The end of a line is read to the end. -/
theorem endLine?_chars (e : LineEnd) (rest : List Char) : endLine? (e.chars ++ rest) = some rest := by
  obtain ⟨d, r, newline, starts⟩ := e.newline_cons
  have solid : isPlain d = false ∧ d ≠ '#' := by
    obtain rfl | rfl := starts
    · decide
    · decide
  have left : skipComment? (e.comment ++ (e.newline ++ rest)) = some (e.newline ++ rest) := by
    rw [comment]
    cases remark : e.comment? with
    | some remark' =>
      -- A comment is passed over up to the line break, which is not plain.
      have dropped : (remark' ++ (e.newline ++ rest)).dropWhile isPlain = e.newline ++ rest := by
        rw [List.dropWhile_append_of_pos (e.plain remark' remark), newline, List.cons_append,
          List.dropWhile_cons_of_neg (by simp [solid.1])]
      simp only [List.cons_append, skipComment?, dropped, e.afterNewline?_newline, Option.isSome_some, Bool.or_true,
        if_true]
    | none =>
      rw [List.nil_append, newline, List.cons_append, skipComment?]
      intro r' same
      exact solid.2 (List.cons.inj same).1
  have after := e.afterNewline?_newline rest
  rw [endLine?, e.skip_chars, left]
  rw [newline, List.cons_append] at after ⊢
  exact after

end LineEnd

/-- A name is read as a key of one part. -/
theorem key?_bare {name : String} (bare : IsBare name) (before : Blanks) {r : List Char}
    (ends : ∀ c ∈ r.head?, isKeyChar c = false) (noPoint : ∀ r', skipSpace r ≠ '.' :: r') :
    key? (before.chars ++ (name.toList ++ r)) = some ([name], skipSpace r) := by
  obtain ⟨c, cs, spelled⟩ := List.exists_cons_of_ne_nil bare.filled
  have first : isKeyChar c = true := bare.plain c (spelled ▸ List.mem_cons_self)
  have part : keyPart? (name.toList ++ r) = some (name, r) := by
    obtain ⟨taken, left⟩ := takeWhile_append bare.plain ends
    unfold keyPart?
    split
    · rename_i quote
      rw [spelled] at quote
      exact absurd (List.cons.inj quote).1 (ne_of_isKeyChar first (by decide))
    · rename_i quote
      rw [spelled] at quote
      exact absurd (List.cons.inj quote).1 (ne_of_isKeyChar first (by decide))
    · simp [taken, left, bare.filled]
  have start : skipSpace (before.chars ++ (name.toList ++ r)) = name.toList ++ r := by
    rw [before.skip, spelled]
    exact skipSpace_cons first _
  rw [key?, keyAfter?, start, part]
  simp only [List.reverse_singleton]

/-! ## Values -/

/-- A text that is read as a value within a line. -/
structure IsValue (w : List Char) (v : Toml) : Prop where
  solid : ∃ d r, w = d :: r ∧ isSpace d = false
  read : ∀ fuel rest, EndsValue rest → value? (fuel + 1) 0 (w ++ rest) = some (.scalar v, rest)

/-- A number is read from its digits, as a value. -/
theorem isValue_toDigits {n : Nat} (fits : (n : Int) ≤ maxInteger) : IsValue (Nat.toDigits 10 n) (.integer n) := by
  have digits : ∀ c ∈ Nat.toDigits 10 n, c.isDigit = true := fun c => Decimal.isDigit_of_mem
  obtain ⟨d, ds, spelled⟩ := List.exists_cons_of_ne_nil (@Nat.toDigits_ne_nil n 10)
  have digit : d.isDigit = true := digits d (spelled ▸ List.mem_cons_self)
  have solid : isSpace d = false := by
    have plain : isKeyChar d = true := by
      simp [isKeyChar, Char.isAlphanum, digit]
    exact isSpace_of_isKeyChar plain
  have noName : ∀ s : String, 't' ∈ s.toList ∨ 'f' ∈ s.toList → (Nat.toDigits 10 n == s.toList) = false := by
    intro s letter
    rw [beq_eq_false_iff_ne]
    intro same
    obtain letter | letter := letter
    · exact absurd (digits 't' (same ▸ letter)) (by decide)
    · exact absurd (digits 'f' (same ▸ letter)) (by decide)
  have read : word? (Nat.toDigits 10 n) = some (.integer n) := by
    have range : inRange n = true := by
      have low : minInteger ≤ n := Int.le_trans (by decide) (Int.natCast_nonneg n)
      simp only [inRange, low, fits, decide_true, Bool.and_self]
    rw [word?, noName "true" (by decide), noName "false" (by decide)]
    simp [integer?_toDigits, range]
  refine ⟨⟨d, ds, spelled, solid⟩, fun fuel rest ends => ?_⟩
  have word := takeWord_digits digits ends
  rw [value?]
  · simp [word, read]
  -- Every other kind of value begins with a character of its own.
  all_goals
    intro r same
    rw [spelled] at same
    obtain rfl : d = _ := (List.cons.inj same).1
    exact absurd digit (by decide)

/-- A text is read from its quotes, as a value. -/
theorem isValue_writeText (s : String) : IsValue (writeText s) (.string s) := by
  have quotes : ∃ d w, writeText s = d :: w ∧ (d = '"' ∨ d = '\'') := by
    rw [writeText, writeQuoted]
    cases Quoting.of s.toList with
    | basic => exact ⟨'"', _, rfl, .inl rfl⟩
    | literal => exact ⟨'\'', _, rfl, .inr rfl⟩
    | basicLines => exact ⟨'"', _, rfl, .inl rfl⟩
    | literalLines => exact ⟨'\'', _, rfl, .inr rfl⟩
  obtain ⟨d, w, spelled, quote⟩ := quotes
  refine ⟨⟨d, w, spelled, ?_⟩, fun fuel rest ends => ?_⟩
  · obtain rfl | rfl := quote
    · rfl
    · rfl
  · -- What ends a value is no quote, so that the closing quotes are the last ones.
    have closed : ∀ quote, quote = '"' ∨ quote = '\'' → Toml.Ends quote rest := by
      rintro quote kind r rfl
      have other := ends quote rfl
      obtain rfl | rfl := kind
      · exact absurd other (by decide)
      · exact absurd other (by decide)
    have read := text?_writeText s closed
    rw [spelled] at read ⊢
    rw [List.cons_append] at read ⊢
    obtain rfl | rfl := quote
    · rw [value?, read]
      rfl
    · rw [value?, read]
      rfl

/-! ## Lines -/

/-- A line that stands for a statement, or for none, whatever follows it. -/
structure IsLine (line : List Char) (statement? : Option Statement) : Prop where
  filled : line ≠ []
  read : ∀ rest, line? (line ++ rest) = some (statement?, rest)

/-- Lines one after the other are read as the statements that they stand for. -/
theorem lines?_flatten {written : List (List Char × Option Statement)} (read : ∀ l ∈ written, IsLine l.1 l.2)
    (seen : List Statement) {n : Nat} (enough : (written.map Prod.fst).flatten.length ≤ n) :
    lines? seen n (written.map Prod.fst).flatten = some (seen.reverse ++ written.filterMap Prod.snd) := by
  induction written generalizing seen n with
  | nil => simp [lines?]
  | cons l written ih =>
    obtain ⟨line, statement?⟩ := l
    have later := @ih fun l hl => read l (List.mem_cons_of_mem _ hl)
    have first : IsLine line statement? := read _ List.mem_cons_self
    rw [List.map_cons, List.flatten_cons] at enough ⊢
    generalize (written.map Prod.fst).flatten = rest at enough later ⊢
    have step := first.read rest
    obtain ⟨c, cs, rfl⟩ := List.exists_cons_of_ne_nil first.filled
    -- A line has at least one character, so that the fuel lasts for the lines after it.
    cases n with
    | zero => simp at enough
    | succ n =>
      have fits : rest.length ≤ n := by
        simp at enough
        omega
      simp only [List.cons_append] at step ⊢
      rw [lines?, step]
      · cases statement? with
        | none => simp [later seen fits]
        | some s => simp [later (s :: seen) fits]
      · simp

/-! ## Headers and fields -/

/-- A line that begins with a name does not end there. -/
theorem endLine?_cons {c : Char} (plain : isKeyChar c = true) (r : List Char) : endLine? (c :: r) = none := by
  have noComment : skipComment? (c :: r) = some (c :: r) := by
    unfold skipComment?
    split
    · rename_i comment
      exact absurd (List.cons.inj comment).1 (ne_of_isKeyChar plain (by decide))
    · rfl
  rw [endLine?, skipSpace_cons plain, noComment]
  exact afterNewline?_cons (ne_of_isKeyChar plain (by decide)) (ne_of_isKeyChar plain (by decide)) r

/-- Blanks may come before a line. -/
theorem IsLine.indent {line : List Char} {statement? : Option Statement} (read : IsLine line statement?)
    (b : Blanks) : IsLine (b.chars ++ line) statement? := by
  refine ⟨by simp [read.filled], fun rest => ?_⟩
  have same : line? (b.chars ++ (line ++ rest)) = line? (line ++ rest) := by
    rw [line?, line?, b.skip]
  rw [List.append_assoc, same, read.read]

/-- A line without a statement. -/
theorem isLine_end (e : LineEnd) : IsLine e.chars none := by
  obtain ⟨d, r, newline, starts⟩ := e.newline_cons
  refine ⟨by simp [LineEnd.chars, newline], fun rest => ?_⟩
  -- After blanks comes a comment or the line break, and no header.
  have noBracket : ∀ r, skipSpace (e.chars ++ rest) ≠ '[' :: r := by
    intro r' same
    rw [e.skip_chars, LineEnd.comment] at same
    cases remark : e.comment? with
    | some remark' => simp [remark] at same
    | none =>
      simp only [remark, newline, List.nil_append, List.cons_append] at same
      obtain rfl : d = '[' := (List.cons.inj same).1
      exact absurd starts (by decide)
  have ended : endLine? (skipSpace (e.chars ++ rest)) = some rest := by
    have again : skipSpace (skipSpace (e.chars ++ rest)) = skipSpace (e.chars ++ rest) :=
      List.dropWhile_idempotent _ _
    rw [endLine?, again]
    exact e.endLine?_chars rest
  rw [line?]
  split
  · rename_i double
    exact absurd double (noBracket _)
  · rename_i single
    exact absurd single (noBracket _)
  · rw [ended]

/-- The header of a table is a line. -/
theorem isLine_table {name : String} (bare : IsBare name) (before after : Blanks) (e : LineEnd) :
    IsLine ('[' :: (before.chars ++ (name.toList ++ (after.chars ++ ']' :: e.chars)))) (some (.table [name])) := by
  refine ⟨by simp, fun rest => ?_⟩
  have header : header? [']'] (before.chars ++ (name.toList ++ (after.chars ++ ']' :: (e.chars ++ rest)))) =
      some ([name], rest) := by
    have skipped : skipSpace (after.chars ++ ']' :: (e.chars ++ rest)) = ']' :: (e.chars ++ rest) := by
      rw [after.skip]
      rfl
    have ends : ∀ c ∈ (after.chars ++ ']' :: (e.chars ++ rest)).head?, isKeyChar c = false :=
      after.head_isKeyChar (by decide) _
    have key := key?_bare bare before ends (by simp [skipped])
    simp [header?, key, skipped, e.endLine?_chars]
  -- A second bracket would begin an array of tables.
  have noBracket : ∀ r, before.chars ++ (name.toList ++ (after.chars ++ ']' :: (e.chars ++ rest))) ≠ '[' :: r := by
    intro r same
    obtain ⟨c, cs, spelled⟩ := List.exists_cons_of_ne_nil bare.filled
    have first : c ≠ '[' := ne_of_isKeyChar (bare.plain c (spelled ▸ List.mem_cons_self)) (by decide)
    cases blanks : before.chars with
    | nil =>
      rw [blanks, spelled] at same
      exact first (List.cons.inj same).1
    | cons b bs =>
      rw [blanks] at same
      obtain rfl : b = '[' := (List.cons.inj same).1
      exact absurd (before.spaced '[' (blanks ▸ List.mem_cons_self)) (by decide)
  have start : ∀ r, skipSpace ('[' :: r) = '[' :: r := fun _ => rfl
  simp only [List.cons_append, List.append_assoc]
  rw [line?, start]
  split
  · rename_i double
    exact absurd (List.cons.inj double).2 (noBracket _)
  · rename_i single
    rw [← (List.cons.inj single).2, header]
    rfl
  · rename_i other
    exact absurd rfl (other _)

/-- A field is a line. -/
theorem isLine_assignment {name : String} (bare : IsBare name) {w : List Char} {v : Toml} (value : IsValue w v)
    (before after : Blanks) (e : LineEnd) :
    IsLine (name.toList ++ (before.chars ++ '=' :: (after.chars ++ (w ++ e.chars))))
      (some (.assignment [name] (.scalar v))) := by
  obtain ⟨c, cs, spelled⟩ := List.exists_cons_of_ne_nil bare.filled
  have first : isKeyChar c = true := bare.plain c (spelled ▸ List.mem_cons_self)
  refine ⟨by simp [bare.filled], fun rest => ?_⟩
  have assigned : assignment? (name.toList ++ (before.chars ++ '=' :: (after.chars ++ (w ++ (e.chars ++ rest))))) =
      some (.assignment [name] (.scalar v), rest) := by
    have skipped : skipSpace (before.chars ++ '=' :: (after.chars ++ (w ++ (e.chars ++ rest)))) =
        '=' :: (after.chars ++ (w ++ (e.chars ++ rest))) := by
      rw [before.skip]
      rfl
    have ends : ∀ d ∈ (before.chars ++ '=' :: (after.chars ++ (w ++ (e.chars ++ rest)))).head?, isKeyChar d = false :=
      before.head_isKeyChar (by decide) _
    have key := key?_bare bare .none ends (by simp [skipped])
    -- Blanks are skipped up to the value, which begins with none itself.
    have start : skipSpace (after.chars ++ (w ++ (e.chars ++ rest))) = w ++ (e.chars ++ rest) := by
      obtain ⟨d, r, rfl, solid⟩ := value.solid
      rw [after.skip, List.cons_append, skipSpace_solid solid]
    have read := value.read (after.chars ++ (w ++ (e.chars ++ rest))).length _ (e.endsValue rest)
    rw [Blanks.none, List.nil_append] at key
    simp only [assignment?, key, skipped, after?, start, e.endLine?_chars, read, Option.bind_eq_bind, Option.bind_some,
      if_true, beq_self_eq_true]
    rfl
  simp only [List.append_assoc, List.cons_append]
  rw [spelled, List.cons_append] at assigned ⊢
  rw [line?, skipSpace_cons first]
  split
  · rename_i double
    exact absurd (List.cons.inj double).1 (ne_of_isKeyChar first (by decide))
  · rename_i single
    exact absurd (List.cons.inj single).1 (ne_of_isKeyChar first (by decide))
  · rw [endLine?_cons first, assigned]
    rfl

end VaultConsole.Toml
