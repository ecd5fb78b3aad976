import VaultConsole.Proofs.Json.Written

/-!
# The grammar of JSON

Which texts are JSON, and of which tree (`IsTextOf`). Blanks may come before every token and at the end; a
number is read up to the first character that cannot belong to one; what is escaped in a string is its
character, where two surrogates that make up a pair are one.

The grammar is unambiguous (`IsTextOf.unique`): no text is of two trees. By induction on how a phrase is read:
its first character tells which kind of value it is, and what is read has one rest.
-/

namespace VaultConsole.Json

open Setting.Json (skip isSpace text? skip_append skip_cons)

/-! ## Numbers -/

/-- Digits, of which there is at least one. -/
def IsDigits (ds : List Char) : Prop := ds ≠ [] ∧ ∀ d ∈ ds, d.isDigit = true

/-- The digits before the point: a zero comes first only if it is the only one. -/
def IsWhole (ds : List Char) : Prop := IsDigits ds ∧ (ds.head? = some '0' → ds = ['0'])

/-- A fraction, or none. -/
inductive IsFraction : List Char → Prop where
  | none : IsFraction []
  | point {ds : List Char} : IsDigits ds → IsFraction ('.' :: ds)

/-- An exponent, or none. -/
inductive IsExponent : List Char → Prop where
  | none : IsExponent []
  | letter {e : Char} {sign ds : List Char} : e = 'e' ∨ e = 'E' → sign = [] ∨ sign = ['+'] ∨ sign = ['-'] →
    IsDigits ds → IsExponent (e :: (sign ++ ds))

/-- The token of a number. -/
inductive IsNumber : List Char → Prop where
  | mk {sign whole fraction exponent : List Char} : sign = [] ∨ sign = ['-'] → IsWhole whole →
    IsFraction fraction → IsExponent exponent → IsNumber (sign ++ (whole ++ (fraction ++ exponent)))

/-- A character that may belong to a number. -/
def isNumeric (c : Char) : Bool := c.isDigit || c == '-' || c == '+' || c == '.' || c == 'e' || c == 'E'

/-- What may follow a number. -/
def EndsNumber (r : List Char) : Prop := ∀ c ∈ r.head?, isNumeric c = false

theorem isNumeric_of_isDigit {c : Char} (digit : c.isDigit = true) : isNumeric c = true := by
  simp [isNumeric, digit]

theorem IsDigits.isNumeric {ds : List Char} (digits : IsDigits ds) : ∀ c ∈ ds, isNumeric c = true :=
  fun c member => isNumeric_of_isDigit (digits.2 c member)

theorem IsFraction.isNumeric {w : List Char} (fraction : IsFraction w) : ∀ c ∈ w, isNumeric c = true := by
  cases fraction with
  | none => exact fun _ member => absurd member List.not_mem_nil
  | point digits =>
    rw [List.forall_mem_cons]
    exact ⟨rfl, digits.isNumeric⟩

theorem IsExponent.isNumeric {w : List Char} (exponent : IsExponent w) : ∀ c ∈ w, isNumeric c = true := by
  cases exponent with
  | none => exact fun _ member => absurd member List.not_mem_nil
  | letter letter sign digits =>
    rw [List.forall_mem_cons, List.forall_mem_append]
    refine ⟨?_, ?_, digits.isNumeric⟩
    · obtain rfl | rfl := letter
      · rfl
      · rfl
    · obtain rfl | rfl | rfl := sign
      · exact fun _ member => absurd member List.not_mem_nil
      · exact List.forall_mem_singleton.2 rfl
      · exact List.forall_mem_singleton.2 rfl

theorem IsNumber.isNumeric {w : List Char} (number : IsNumber w) : ∀ c ∈ w, isNumeric c = true := by
  obtain ⟨sign, whole, fraction, exponent⟩ := number
  simp only [List.forall_mem_append]
  refine ⟨?_, whole.1.isNumeric, fraction.isNumeric, exponent.isNumeric⟩
  obtain rfl | rfl := sign
  · exact fun _ member => absurd member List.not_mem_nil
  · exact List.forall_mem_singleton.2 rfl

/-- A number begins with a sign or with a digit. -/
theorem IsNumber.exists_cons {w : List Char} (number : IsNumber w) :
    ∃ c r, w = c :: r ∧ (c = '-' ∨ c.isDigit = true) := by
  obtain ⟨sign, whole, -, -⟩ := number
  obtain rfl | rfl := sign
  · obtain ⟨d, ds, rfl⟩ := List.exists_cons_of_ne_nil whole.1.1
    exact ⟨d, _, rfl, .inr (whole.1.2 d List.mem_cons_self)⟩
  · exact ⟨'-', _, rfl, .inl rfl⟩

/-- A number is read in one way. -/
theorem number_unique {w w' r r' : List Char} (number : IsNumber w) (number' : IsNumber w')
    (ends : EndsNumber r) (ends' : EndsNumber r') (same : w ++ r = w' ++ r') : w = w' ∧ r = r' := by
  obtain ⟨taken, left⟩ := takeWhile_append number.isNumeric ends
  obtain ⟨taken', left'⟩ := takeWhile_append number'.isNumeric ends'
  rw [same] at taken left
  exact ⟨taken.symm.trans taken', left.symm.trans left'⟩

/-! ## Phrases -/

/-- What is read at a place: a value, or what an opened bracket holds, up to the bracket that closes it. -/
inductive Phrase where
  | value (v : Json)
  | items (vs : List Json)
  | entries (es : List (String × Json))

/-- The kind of a phrase. -/
def Phrase.kind : Phrase → Nat
  | .value _ => 0
  | .items _ => 1
  | .entries _ => 2

/-- The key of an entry with its colon, and what follows. -/
def ReadsKey (cs : List Char) (key : String) (r : List Char) : Prop :=
  ∃ inside after, skip cs = '"' :: inside ∧ text? inside = some (some key, after) ∧ skip after = ':' :: r

/-- A phrase at the start of characters, and what follows it. -/
inductive Reads : List Char → Phrase → List Char → Prop where
  | null (r : List Char) : Reads ('n' :: 'u' :: 'l' :: 'l' :: r) (.value .null) r
  | yes (r : List Char) : Reads ('t' :: 'r' :: 'u' :: 'e' :: r) (.value (.bool true)) r
  | no (r : List Char) : Reads ('f' :: 'a' :: 'l' :: 's' :: 'e' :: r) (.value (.bool false)) r
  | number {cs w r : List Char} : cs = w ++ r → IsNumber w → EndsNumber r →
    Reads cs (.value (.number (String.ofList w))) r
  | string {cs r : List Char} {s : String} : text? cs = some (some s, r) → Reads ('"' :: cs) (.value (.string s)) r
  | noItems {cs r : List Char} : skip cs = ']' :: r → Reads ('[' :: cs) (.value (.array [])) r
  | array {cs r : List Char} {vs : List Json} : Reads cs (.items vs) r → Reads ('[' :: cs) (.value (.array vs)) r
  | noEntries {cs r : List Char} : skip cs = '\x7d' :: r → Reads ('\x7b' :: cs) (.value (.object [])) r
  | object {cs r : List Char} {es : List (String × Json)} : Reads cs (.entries es) r →
    Reads ('\x7b' :: cs) (.value (.object es)) r
  | lastItem {cs after r : List Char} {v : Json} : Reads (skip cs) (.value v) after → skip after = ']' :: r →
    Reads cs (.items [v]) r
  | item {cs after next r : List Char} {v : Json} {vs : List Json} : Reads (skip cs) (.value v) after →
    skip after = ',' :: next → Reads next (.items vs) r → Reads cs (.items (v :: vs)) r
  | lastEntry {cs inside after r : List Char} {key : String} {v : Json} : ReadsKey cs key inside →
    Reads (skip inside) (.value v) after → skip after = '\x7d' :: r → Reads cs (.entries [(key, v)]) r
  | entry {cs inside after next r : List Char} {key : String} {v : Json} {es : List (String × Json)} :
    ReadsKey cs key inside → Reads (skip inside) (.value v) after → skip after = ',' :: next →
    Reads next (.entries es) r → Reads cs (.entries ((key, v) :: es)) r

/-- **A text of JSON** and the tree that it is of: one value, with nothing but blanks around it. -/
def IsTextOf (text : String) (v : Json) : Prop :=
  ∃ r, Reads (skip text.toList) (.value v) r ∧ skip r = []

/-! ## One tree at most -/

theorem ReadsKey.unique {cs r r' : List Char} {key key' : String} (read : ReadsKey cs key r)
    (read' : ReadsKey cs key' r') : key = key' ∧ r = r' := by
  obtain ⟨inside, after, first, text, colon⟩ := read
  obtain ⟨inside', after', first', text', colon'⟩ := read'
  obtain rfl : inside = inside' := (List.cons.inj (first.symm.trans first')).2
  obtain ⟨rfl, rfl⟩ : key = key' ∧ after = after' := by
    simpa using text.symm.trans text'
  exact ⟨rfl, (List.cons.inj (colon.symm.trans colon')).2⟩

/-- The characters that a value begins with. -/
def beginsValue (c : Char) : Bool :=
  c == 'n' || c == 't' || c == 'f' || c == '"' || c == '[' || c == '\x7b' || c == '-' || c.isDigit

theorem Reads.exists_cons {cs r : List Char} {v : Json} (read : Reads cs (.value v) r) :
    ∃ c cs', cs = c :: cs' ∧ beginsValue c = true := by
  cases read with
  | number same number =>
    obtain ⟨c, w, rfl, sign | digit⟩ := number.exists_cons
    · exact ⟨c, _, same, by simp [beginsValue, sign]⟩
    · exact ⟨c, _, same, by simp [beginsValue, digit]⟩
  | null | yes | no | string | noItems | array | noEntries | object => exact ⟨_, _, rfl, rfl⟩

/-- What begins otherwise is no number. -/
theorem not_number {c : Char} {cs w r : List Char} (other : c ≠ '-' ∧ c.isDigit = false)
    (same : c :: cs = w ++ r) : ¬IsNumber w := by
  intro number
  obtain ⟨d, w, rfl, first⟩ := number.exists_cons
  obtain ⟨rfl, -⟩ := List.cons.inj same
  obtain sign | digit := first
  · exact other.1 sign
  · exact Bool.noConfusion (other.2.symm.trans digit)

/-- Items begin with a value, and so not with the closing bracket. -/
theorem Reads.not_closed {cs cs' r : List Char} {vs : List Json} (read : Reads cs (.items vs) r) :
    skip cs ≠ ']' :: cs' := by
  intro closed
  obtain ⟨c, cs', first, begins⟩ : ∃ c cs', skip cs = c :: cs' ∧ beginsValue c = true := by
    cases read with
    | lastItem value => exact value.exists_cons
    | item value => exact value.exists_cons
  obtain ⟨rfl, -⟩ := List.cons.inj (closed.symm.trans first)
  exact absurd begins (by decide)

theorem Reads.not_closed_entries {cs cs' r : List Char} {es : List (String × Json)}
    (read : Reads cs (.entries es) r) : skip cs ≠ '\x7d' :: cs' := by
  intro closed
  obtain ⟨inside, first⟩ : ∃ inside, skip cs = '"' :: inside := by
    cases read with
    | lastEntry key => exact ⟨_, key.choose_spec.choose_spec.1⟩
    | entry key => exact ⟨_, key.choose_spec.choose_spec.1⟩
  exact absurd (List.cons.inj (closed.symm.trans first)).1 (by decide)

/-- A phrase and what follows it are no others than those of the same kind that are read at the place. -/
theorem Reads.unique {cs r r' : List Char} {p p' : Phrase} (read : Reads cs p r) (read' : Reads cs p' r')
    (kind : p.kind = p'.kind) : p = p' ∧ r = r' := by
  -- The first character of a phrase tells its form; one that closes a list tells whether there are more items.
  induction read generalizing p' r' with
  | null =>
    cases read' with
    | number same number => exact absurd number (not_number (by decide) same)
    | null => exact ⟨rfl, rfl⟩
    | _ => cases kind
  | yes =>
    cases read' with
    | number same number => exact absurd number (not_number (by decide) same)
    | yes => exact ⟨rfl, rfl⟩
    | _ => cases kind
  | no =>
    cases read' with
    | number same number => exact absurd number (not_number (by decide) same)
    | no => exact ⟨rfl, rfl⟩
    | _ => cases kind
  | number same number ends =>
    cases read' with
    | number same' number' ends' =>
      obtain ⟨rfl, rfl⟩ := number_unique number number' ends ends' (same.symm.trans same')
      exact ⟨rfl, rfl⟩
    | lastItem | item | lastEntry | entry => cases kind
    | _ => exact absurd number (not_number (by decide) same)
  | string text =>
    cases read' with
    | number same number => exact absurd number (not_number (by decide) same)
    | string text' =>
      have same := text.symm.trans text'
      simp only [Option.some.injEq, Prod.mk.injEq] at same
      obtain ⟨rfl, rfl⟩ := same
      exact ⟨rfl, rfl⟩
    | _ => cases kind
  | noItems closed =>
    cases read' with
    | number same number => exact absurd number (not_number (by decide) same)
    | noItems closed' => exact ⟨rfl, (List.cons.inj (closed.symm.trans closed')).2⟩
    | array items => exact absurd closed items.not_closed
    | _ => cases kind
  | array items ih =>
    cases read' with
    | number same number => exact absurd number (not_number (by decide) same)
    | noItems closed => exact absurd closed items.not_closed
    | array items' =>
      obtain ⟨same, rfl⟩ := ih items' rfl
      cases same
      exact ⟨rfl, rfl⟩
    | _ => cases kind
  | noEntries closed =>
    cases read' with
    | number same number => exact absurd number (not_number (by decide) same)
    | noEntries closed' => exact ⟨rfl, (List.cons.inj (closed.symm.trans closed')).2⟩
    | object entries => exact absurd closed entries.not_closed_entries
    | _ => cases kind
  | object entries ih =>
    cases read' with
    | number same number => exact absurd number (not_number (by decide) same)
    | noEntries closed => exact absurd closed entries.not_closed_entries
    | object entries' =>
      obtain ⟨same, rfl⟩ := ih entries' rfl
      cases same
      exact ⟨rfl, rfl⟩
    | _ => cases kind
  | lastItem value closed ih =>
    cases read' with
    | lastItem value' closed' =>
      obtain ⟨same, rfl⟩ := ih value' rfl
      cases same
      exact ⟨rfl, (List.cons.inj (closed.symm.trans closed')).2⟩
    | item value' comma =>
      obtain ⟨-, rfl⟩ := ih value' rfl
      exact absurd (List.cons.inj (closed.symm.trans comma)).1 (by decide)
    | _ => cases kind
  | item value comma later ih ih' =>
    cases read' with
    | lastItem value' closed =>
      obtain ⟨-, rfl⟩ := ih value' rfl
      exact absurd (List.cons.inj (closed.symm.trans comma)).1 (by decide)
    | item value' comma' later' =>
      obtain ⟨same, rfl⟩ := ih value' rfl
      obtain rfl := (List.cons.inj (comma.symm.trans comma')).2
      obtain ⟨same', rfl⟩ := ih' later' rfl
      cases same
      cases same'
      exact ⟨rfl, rfl⟩
    | _ => cases kind
  | lastEntry key value closed ih =>
    cases read' with
    | lastEntry key' value' closed' =>
      obtain ⟨rfl, rfl⟩ := key.unique key'
      obtain ⟨same, rfl⟩ := ih value' rfl
      cases same
      exact ⟨rfl, (List.cons.inj (closed.symm.trans closed')).2⟩
    | entry key' value' comma =>
      obtain ⟨-, rfl⟩ := key.unique key'
      obtain ⟨-, rfl⟩ := ih value' rfl
      exact absurd (List.cons.inj (closed.symm.trans comma)).1 (by decide)
    | _ => cases kind
  | entry key value comma later ih ih' =>
    cases read' with
    | lastEntry key' value' closed =>
      obtain ⟨-, rfl⟩ := key.unique key'
      obtain ⟨-, rfl⟩ := ih value' rfl
      exact absurd (List.cons.inj (closed.symm.trans comma)).1 (by decide)
    | entry key' value' comma' later' =>
      obtain ⟨rfl, rfl⟩ := key.unique key'
      obtain ⟨same, rfl⟩ := ih value' rfl
      obtain rfl := (List.cons.inj (comma.symm.trans comma')).2
      obtain ⟨same', rfl⟩ := ih' later' rfl
      cases same
      cases same'
      exact ⟨rfl, rfl⟩
    | _ => cases kind

/-- **The grammar is unambiguous**: a text is of one tree at most. -/
theorem IsTextOf.unique {text : String} {v v' : Json} (h : IsTextOf text v) (h' : IsTextOf text v') : v = v' := by
  obtain ⟨r, read, -⟩ := h
  obtain ⟨r', read', -⟩ := h'
  obtain ⟨same, -⟩ := read.unique read' rfl
  cases same
  rfl

end VaultConsole.Json
