import VaultConsole.Toml.Quoting

/-!
# Texts that are written and read in TOML

Whatever quotes a text is written in, it is read back from them (`text?_writeText`). There is one reader for
each kind of quotes, and one lemma for each reader, by induction on the characters. The readers of three
quotes look ahead: quotes end a text if there are three of them in a row, so a lemma on these readers says how
many have just come.
-/

namespace VaultConsole.Toml

/-! ## Characters -/

/-- A plain character does not end a line. -/
theorem ne_of_isPlain {c : Char} (plain : isPlain c = true) : c ≠ '\n' ∧ c ≠ '\r' := by
  constructor
  · rintro rfl
    cases plain
  · rintro rfl
    cases plain

theorem afterNewline?_cons {c : Char} (noFeed : c ≠ '\n') (noReturn : c ≠ '\r') (r : List Char) :
    afterNewline? (c :: r) = none := by
  unfold afterNewline?
  split
  · rename_i same
    exact absurd (List.cons.inj same).1 noFeed
  · rename_i same
    exact absurd (List.cons.inj same).1 noReturn
  · rfl

/-- Nothing but blanks is skipped. -/
theorem skipSpace_solid {c : Char} (solid : isSpace c = false) (r : List Char) : skipSpace (c :: r) = c :: r := by
  rw [skipSpace, List.dropWhile_cons_of_neg (by simp [solid])]

/-- What follows the backslash of an escape, from which a character is read back. -/
structure IsEscape (c : Char) (w : List Char) : Prop where
  read : ∀ rest, escaped? (w ++ rest) = some (c, rest)
  /-- An escape is not the end of a line. -/
  solid : ∀ rest, continuation? (w ++ rest) = none

theorem continuation?_cons {d : Char} (solid : isSpace d = false ∧ d ≠ '\n' ∧ d ≠ '\r') (r : List Char) :
    continuation? (d :: r) = none := by
  rw [continuation?, skipSpace_solid solid.1, afterNewline?_cons solid.2.1 solid.2.2]
  rfl

/-- An escape of one letter. -/
theorem isEscape_letter {c d : Char} (read : ∀ rest, escaped? (d :: rest) = some (c, rest))
    (solid : isSpace d = false ∧ d ≠ '\n' ∧ d ≠ '\r') : IsEscape c [d] :=
  ⟨read, continuation?_cons solid⟩

/-- A control character is escaped by its number. -/
theorem isEscape_control {c : Char} (control : isPlain c = false) :
    IsEscape c ('u' :: Decimal.Rounded.hexDigits true 4 c.toNat) := by
  -- Control characters have numbers below 128, so that four digits are enough: all are tried.
  have small : c.toNat < 128 := by
    simp only [isPlain, Bool.or_eq_false_iff, Bool.and_eq_false_iff, decide_eq_false_iff_not,
      bne_eq_false_iff_eq] at control
    omega
  have digits : ∀ n < 128, (Decimal.Rounded.hexDigits true 4 n).length = 4 ∧
      Decimal.natOfDigits? 16 (Decimal.Rounded.hexDigits true 4 n) = some n := by
    decide +kernel
  obtain ⟨length, value⟩ := digits c.toNat small
  constructor
  · intro rest
    have read : codePoint? 4 (Decimal.Rounded.hexDigits true 4 c.toNat ++ rest) = some (c, rest) := by
      have character : charOf? c.toNat = some c := by
        rw [charOf?, if_pos (.inl (by omega)), Char.ofNat_toNat]
      rw [codePoint?, List.take_left' length, List.drop_left' length, if_neg (by omega), value,
        Option.bind_some, character]
      rfl
    exact read
  · intro rest
    exact continuation?_cons (by decide) _

/-- How a character other than a quote is written: as the end of a line, as itself, or as an escape. -/
theorem writeChar_cases (q : Quoting) (c : Char) :
    (c = '\n' ∧ q.hasLines = true ∧ writeChar q c = ['\n']) ∨
    (isPlain c = true ∧ c ≠ '\\' ∧ writeChar q c = [c]) ∨
    ∃ w, writeChar q c = '\\' :: w ∧ IsEscape c w := by
  unfold writeChar
  split
  · exact .inr (.inr ⟨_, rfl, isEscape_letter (fun _ => rfl) (by decide)⟩)
  · exact .inr (.inr ⟨_, rfl, isEscape_letter (fun _ => rfl) (by decide)⟩)
  · exact .inr (.inr ⟨_, rfl, isEscape_letter (fun _ => rfl) (by decide)⟩)
  · exact .inr (.inr ⟨_, rfl, isEscape_letter (fun _ => rfl) (by decide)⟩)
  · exact .inr (.inr ⟨_, rfl, isEscape_letter (fun _ => rfl) (by decide)⟩)
  · split
    · rename_i lines
      exact .inl ⟨rfl, lines, rfl⟩
    · exact .inr (.inr ⟨_, rfl, isEscape_letter (fun _ => rfl) (by decide)⟩)
  · rename_i noBackslash _
    split
    · rename_i plain
      exact .inr (.inl ⟨plain, noBackslash, rfl⟩)
    · rename_i control
      exact .inr (.inr ⟨_, rfl, isEscape_control (by simpa using control)⟩)

/-! ## Quotes among characters -/

theorem isEscape_quote : IsEscape '"' ['"'] :=
  isEscape_letter (fun _ => rfl) (by decide)

theorem writeEscaped_quote {q : Quoting} {run : Nat} (room : run < q.quotesAllowed) (cs : List Char) :
    writeEscaped q run ('"' :: cs) = '"' :: writeEscaped q (run + 1) cs := by
  rw [writeEscaped, if_pos (by decide), if_pos room]

theorem writeEscaped_full {q : Quoting} {run : Nat} (full : q.quotesAllowed ≤ run) (cs : List Char) :
    writeEscaped q run ('"' :: cs) = '\\' :: (['"'] ++ writeEscaped q 0 cs) := by
  rw [writeEscaped, if_pos (by decide), if_neg (Nat.not_lt.2 full)]
  rfl

theorem writeEscaped_char (q : Quoting) (run : Nat) {c : Char} (unquoted : c ≠ '"') (cs : List Char) :
    writeEscaped q run (c :: cs) = writeChar q c ++ writeEscaped q 0 cs := by
  rw [writeEscaped, if_neg (by simpa using unquoted)]

/-- What the inside of double quotes begins with: a quote only if it may stand there, and the end of a line
only for one in the text. -/
theorem head_writeEscaped (q : Quoting) (run : Nat) (c : Char) (cs : List Char) :
    ∃ d w, writeEscaped q run (c :: cs) = d :: w ∧ (d = '"' → c = '"' ∧ run < q.quotesAllowed) ∧
      (d = '\n' → c = '\n') ∧ d ≠ '\r' := by
  by_cases quote : c = '"'
  · subst quote
    by_cases room : run < q.quotesAllowed
    · exact ⟨'"', _, writeEscaped_quote room cs, fun _ => ⟨rfl, room⟩, by decide, by decide⟩
    · exact ⟨'\\', _, writeEscaped_full (Nat.le_of_not_lt room) cs, by simp⟩
  · rw [writeEscaped_char _ _ quote]
    obtain ⟨rfl, -, spelled⟩ | ⟨plain, -, spelled⟩ | ⟨w, spelled, -⟩ := writeChar_cases q c
    · exact ⟨'\n', _, by rw [spelled]; rfl, by simp⟩
    · exact ⟨c, _, by rw [spelled]; rfl, fun same => absurd same quote, id, (ne_of_isPlain plain).2⟩
    · exact ⟨'\\', _, by rw [spelled]; rfl, by simp⟩

/-- A text that goes on after what was read of it. -/
theorem ofList_reverse_cons (c : Char) (seen cs : List Char) :
    String.ofList ((c :: seen).reverse ++ cs) = String.ofList (seen.reverse ++ c :: cs) := by
  rw [List.reverse_cons, List.append_assoc, List.singleton_append]

/-! ## One quote -/

theorem basic_plain {c : Char} (plain : isPlain c = true) (noQuote : c ≠ '"') (noBackslash : c ≠ '\\')
    (seen : List Char) (n : Nat) (r : List Char) : basic seen (n + 1) (c :: r) = basic (c :: seen) n r := by
  rw [basic, if_pos plain]
  · exact noQuote
  · exact noBackslash

theorem basic_escape {c : Char} {w : List Char} (escape : IsEscape c w) (seen : List Char) (n : Nat)
    (r : List Char) : basic seen (n + 1) ('\\' :: (w ++ r)) = basic (c :: seen) n r := by
  rw [basic, escape.read]

/-- What is written in double quotes is read back. -/
theorem basic_writeEscaped (cs : List Char) (run : Nat) (seen : List Char) {n : Nat} (rest : List Char)
    (enough : (writeEscaped .basic run cs).length < n) :
    basic seen n (writeEscaped .basic run cs ++ '"' :: rest) = some (String.ofList (seen.reverse ++ cs), rest) := by
  obtain ⟨n, rfl⟩ := Nat.exists_eq_add_one_of_ne_zero (Nat.ne_zero_of_lt enough)
  induction cs generalizing run seen n with
  | nil => simp [writeEscaped, basic, finished]
  | cons c cs ih =>
    have next : ∀ m, (writeEscaped .basic 0 cs).length < m → basic (c :: seen) m
        (writeEscaped .basic 0 cs ++ '"' :: rest) = some (String.ofList (seen.reverse ++ c :: cs), rest) := by
      intro m more
      obtain ⟨m, rfl⟩ := Nat.exists_eq_add_one_of_ne_zero (Nat.ne_zero_of_lt more)
      rw [ih 0 (c :: seen) m more, ofList_reverse_cons]
    -- One quote is as many as may stand there, so that every quote is escaped.
    by_cases quote : c = '"'
    · subst quote
      rw [writeEscaped_full (Nat.zero_le run)] at enough ⊢
      rw [List.cons_append, List.append_assoc, basic_escape isEscape_quote, next]
      simp at enough
      omega
    · rw [writeEscaped_char _ _ quote] at enough ⊢
      obtain ⟨-, lines, -⟩ | ⟨plain, noBackslash, spelled⟩ | ⟨w, spelled, escape⟩ := writeChar_cases .basic c
      · cases lines
      · rw [spelled] at enough ⊢
        rw [List.append_assoc, List.singleton_append, basic_plain plain quote noBackslash, next]
        simpa using enough
      · rw [spelled] at enough ⊢
        rw [List.append_assoc, List.cons_append, basic_escape escape, next]
        simp at enough
        omega

/-- What is written in single quotes is read back. -/
theorem literal_append {cs : List Char} (plain : ∀ c ∈ cs, isPlain c = true) (noQuote : '\'' ∉ cs)
    (seen rest : List Char) :
    literal seen (cs ++ '\'' :: rest) = some (String.ofList (seen.reverse ++ cs), rest) := by
  induction cs generalizing seen with
  | nil => simp [literal, finished]
  | cons c cs ih =>
    have quote : c ≠ '\'' := fun same => noQuote (same ▸ List.mem_cons_self)
    rw [List.cons_append, literal, if_pos (plain c List.mem_cons_self),
      ih (fun d hd => plain d (List.mem_cons_of_mem c hd)) (fun hd => noQuote (List.mem_cons_of_mem c hd))]
    · simp
    · exact quote

/-! ## Three quotes -/

/-- Whether no quote comes first. -/
def Ends (quote : Char) (r : List Char) : Prop := ∀ r', r ≠ quote :: r'

/-- Whether no two quotes come first. -/
def Unquoted (quote : Char) (r : List Char) : Prop := ∀ r', r ≠ quote :: quote :: r'

theorem unquoted_cons {quote c : Char} (differs : c ≠ quote) (r : List Char) : Unquoted quote (c :: r) :=
  fun _ same => differs (List.cons.inj same).1

theorem unquoted_cons_of_ends {quote : Char} (c : Char) {r : List Char} (ends : Ends quote r) :
    Unquoted quote (c :: r) :=
  fun r' same => ends r' (List.cons.inj same).2

theorem ends_cons {quote c : Char} (differs : c ≠ quote) (r : List Char) : Ends quote (c :: r) :=
  fun _ same => differs (List.cons.inj same).1

theorem basicLines_plain {c : Char} {r : List Char} (plain : isPlain c = true) (noBackslash : c ≠ '\\')
    (unquoted : c = '"' → Unquoted '"' r) (seen : List Char) (n : Nat) :
    basicLines seen (n + 1) (c :: r) = basicLines (c :: seen) n r := by
  obtain ⟨noFeed, noReturn⟩ := ne_of_isPlain plain
  rw [basicLines.eq_9 _ _ _ _ (fun _ quote => unquoted quote _) (fun _ quote => unquoted quote _)
    (fun _ quote => unquoted quote _) noFeed (fun _ same => absurd same noReturn) noBackslash, if_pos plain]

theorem basicLines_newline (seen : List Char) (n : Nat) (r : List Char) :
    basicLines seen (n + 1) ('\n' :: r) = basicLines ('\n' :: seen) n r := rfl

theorem basicLines_escape {c : Char} {w : List Char} (escape : IsEscape c w) (seen : List Char) (n : Nat)
    (r : List Char) : basicLines seen (n + 1) ('\\' :: (w ++ r)) = basicLines (c :: seen) n r := by
  simp only [basicLines, escape.solid, escape.read]

/-- The closing quotes, with those of the text that come right before them. -/
theorem basicLines_close {k : Nat} (few : k ≤ 2) (seen : List Char) (n : Nat) {rest : List Char}
    (ends : Ends '"' rest) :
    basicLines seen (n + 1) (List.replicate k '"' ++ '"' :: '"' :: '"' :: rest) =
      some (String.ofList (seen.reverse ++ List.replicate k '"'), rest) := by
  have differs : ∀ c r, rest = c :: r → c ≠ '"' := fun c r spelled same => ends r (same ▸ spelled)
  match k, few, rest with
  | 0, _, [] => simp [basicLines, finished]
  | 0, _, c :: r => simp [basicLines, finished, differs c r rfl]
  | 1, _, [] => simp [basicLines, finished]
  | 1, _, c :: r => simp [basicLines, finished, differs c r rfl]
  | 2, _, rest => simp [basicLines, finished]

/-- After a quote that may stand there, quotes come first only if nothing else is left of the text. -/
theorem unquoted_or_close (cs : List Char) (run : Nat) (rest : List Char) :
    Unquoted '"' (writeEscaped .basicLines (run + 1) cs ++ rest) ∨
      ∃ k, k < 2 ∧ cs = List.replicate k '"' ∧ writeEscaped .basicLines (run + 1) cs = cs := by
  cases cs with
  | nil => exact .inr ⟨0, by decide, rfl, rfl⟩
  | cons c cs =>
    by_cases more : c = '"' ∧ run + 1 < 2
    · obtain ⟨rfl, more⟩ := more
      have written := writeEscaped_quote (q := .basicLines) more cs
      cases cs with
      | nil => exact .inr ⟨1, by decide, rfl, written⟩
      | cons d cs =>
        obtain ⟨e, w, spelled, quote, -⟩ := head_writeEscaped .basicLines (run + 2) d cs
        have full : ¬run + 2 < Quoting.basicLines.quotesAllowed := Nat.not_lt.2 (Nat.le_add_left 2 run)
        rw [written, spelled]
        exact .inl (unquoted_cons_of_ends _ (ends_cons (fun same => full (quote same).2) _))
    · obtain ⟨d, w, spelled, quote, -⟩ := head_writeEscaped .basicLines (run + 1) c cs
      rw [spelled]
      exact .inl (unquoted_cons (fun same => more (quote same)) _)

/-- What is written in three double quotes is read back. Up to two quotes that come last are read together
with the closing ones; other quotes are read one by one. -/
theorem basicLines_writeEscaped (cs : List Char) (run : Nat) (seen : List Char) {n : Nat} {rest : List Char}
    (ends : Ends '"' rest) (enough : (writeEscaped .basicLines run cs).length < n) :
    basicLines seen n (writeEscaped .basicLines run cs ++ '"' :: '"' :: '"' :: rest) =
      some (String.ofList (seen.reverse ++ cs), rest) := by
  obtain ⟨n, rfl⟩ := Nat.exists_eq_add_one_of_ne_zero (Nat.ne_zero_of_lt enough)
  induction cs generalizing run seen n with
  | nil => exact basicLines_close (Nat.zero_le 2) seen n ends
  | cons c cs ih =>
    have next : ∀ run m, (writeEscaped .basicLines run cs).length < m → basicLines (c :: seen) m
        (writeEscaped .basicLines run cs ++ '"' :: '"' :: '"' :: rest) =
          some (String.ofList (seen.reverse ++ c :: cs), rest) := by
      intro run m more
      obtain ⟨m, rfl⟩ := Nat.exists_eq_add_one_of_ne_zero (Nat.ne_zero_of_lt more)
      rw [ih run (c :: seen) m more, ofList_reverse_cons]
    by_cases quote : c = '"'
    · subst quote
      by_cases room : run < 2
      · have written := writeEscaped_quote (q := .basicLines) room cs
        obtain unquoted | ⟨k, few, rfl, last⟩ :=
          unquoted_or_close cs run ('"' :: '"' :: '"' :: rest)
        · rw [written] at enough ⊢
          rw [List.cons_append, basicLines_plain (by decide) (by decide) (fun _ => unquoted), next]
          simpa using enough
        · -- Only quotes are left of the text: they are read with the closing ones.
          rw [written, last]
          exact basicLines_close few seen n ends
      · rw [writeEscaped_full (Nat.le_of_not_lt room)] at enough ⊢
        rw [List.cons_append, List.append_assoc, basicLines_escape isEscape_quote, next]
        simp at enough
        omega
    · rw [writeEscaped_char _ _ quote] at enough ⊢
      obtain ⟨rfl, -, spelled⟩ | ⟨plain, noBackslash, spelled⟩ | ⟨w, spelled, escape⟩ :=
        writeChar_cases .basicLines c
      · rw [spelled] at enough ⊢
        rw [List.append_assoc, List.singleton_append, basicLines_newline, next]
        simpa using enough
      · rw [spelled] at enough ⊢
        rw [List.append_assoc, List.singleton_append,
          basicLines_plain plain noBackslash (fun same => absurd same quote), next]
        simpa using enough
      · rw [spelled] at enough ⊢
        rw [List.append_assoc, List.cons_append, basicLines_escape escape, next]
        simp at enough
        omega

/-! ## Three single quotes -/

theorem le_longestRun (c : Char) (run longest : Nat) (cs : List Char) :
    max run longest ≤ longestRun c run longest cs := by
  induction cs generalizing run longest with
  | nil => exact Nat.le_refl _
  | cons d cs ih =>
    rw [longestRun]
    split
    · have more := ih (run + 1) longest
      omega
    · have more := ih 0 (max run longest)
      omega

/-- A character of which there is no row is not there. -/
theorem notMem_of_longestRun {c : Char} {run longest : Nat} {cs : List Char}
    (runless : longestRun c run longest cs = 0) : c ∉ cs := by
  induction cs generalizing run longest with
  | nil => exact List.not_mem_nil
  | cons d cs ih =>
    rw [longestRun] at runless
    split at runless
    · have more := le_longestRun c (run + 1) longest cs
      omega
    · rename_i differs
      rw [List.mem_cons, not_or]
      exact ⟨fun same => differs (by simp [same]), ih runless⟩

theorem literalLines_plain {c : Char} {r : List Char} (plain : isPlain c = true)
    (unquoted : c = '\'' → Unquoted '\'' r) (seen : List Char) :
    literalLines seen (c :: r) = literalLines (c :: seen) r := by
  obtain ⟨noFeed, noReturn⟩ := ne_of_isPlain plain
  rw [literalLines.eq_7 _ _ _ (fun _ quote => unquoted quote _) (fun _ quote => unquoted quote _)
    (fun _ quote => unquoted quote _) noFeed (fun _ same => absurd same noReturn), if_pos plain]

theorem literalLines_newline (seen r : List Char) :
    literalLines seen ('\n' :: r) = literalLines ('\n' :: seen) r := rfl

theorem literalLines_close {k : Nat} (few : k ≤ 2) (seen : List Char) {rest : List Char} (ends : Ends '\'' rest) :
    literalLines seen (List.replicate k '\'' ++ '\'' :: '\'' :: '\'' :: rest) =
      some (String.ofList (seen.reverse ++ List.replicate k '\''), rest) := by
  have differs : ∀ c r, rest = c :: r → c ≠ '\'' := fun c r spelled same => ends r (same ▸ spelled)
  match k, few, rest with
  | 0, _, [] => simp [literalLines, finished]
  | 0, _, c :: r => simp [literalLines, finished, differs c r rfl]
  | 1, _, [] => simp [literalLines, finished]
  | 1, _, c :: r => simp [literalLines, finished, differs c r rfl]
  | 2, _, rest => simp [literalLines, finished]

/-- In a text without long rows, quotes come first after a quote only if nothing else is left of the text. -/
theorem unquoted_or_last {cs : List Char} {run longest : Nat}
    (short : longestRun '\'' (run + 1) longest cs ≤ 2) (rest : List Char) :
    Unquoted '\'' (cs ++ rest) ∨ ∃ k, k < 2 ∧ cs = List.replicate k '\'' := by
  match cs with
  | [] => exact .inr ⟨0, by decide, rfl⟩
  | [c] =>
    by_cases quote : c = '\''
    · exact .inr ⟨1, by decide, by rw [quote]; rfl⟩
    · exact .inl (unquoted_cons quote _)
  | c :: d :: cs =>
    refine .inl ?_
    by_cases quote : c = '\''
    · by_cases quote' : d = '\''
      · subst quote quote'
        have long := le_longestRun '\'' (run + 1 + 1 + 1) longest cs
        have short : longestRun '\'' (run + 1 + 1 + 1) longest cs ≤ 2 := short
        omega
      · exact unquoted_cons_of_ends c (ends_cons quote' _)
    · exact unquoted_cons quote _

/-- What is written in three single quotes is read back. -/
theorem literalLines_append {cs : List Char} (plain : ∀ c ∈ cs, isPlain c = true ∨ c = '\n') {run longest : Nat}
    (short : longestRun '\'' run longest cs ≤ 2) (seen : List Char) {rest : List Char} (ends : Ends '\'' rest) :
    literalLines seen (cs ++ '\'' :: '\'' :: '\'' :: rest) =
      some (String.ofList (seen.reverse ++ cs), rest) := by
  induction cs generalizing run longest seen with
  | nil => exact literalLines_close (Nat.zero_le 2) seen ends
  | cons c cs ih =>
    have later : ∀ d ∈ cs, isPlain d = true ∨ d = '\n' := fun d hd => plain d (List.mem_cons_of_mem c hd)
    have next : ∀ {run longest}, longestRun '\'' run longest cs ≤ 2 → literalLines (c :: seen)
        (cs ++ '\'' :: '\'' :: '\'' :: rest) =
          some (String.ofList (seen.reverse ++ c :: cs), rest) := by
      intro run longest short
      rw [ih later short, ofList_reverse_cons]
    rw [longestRun] at short
    by_cases quote : c = '\''
    · subst quote
      rw [if_pos (by decide)] at short
      -- A quote is taken for one of the text, unless only quotes follow: these stand before the closing ones.
      obtain unquoted | ⟨k, few, rfl⟩ := unquoted_or_last short ('\'' :: '\'' :: '\'' :: rest)
      · rw [List.cons_append, literalLines_plain (by decide) (fun _ => unquoted), next short]
      · exact literalLines_close few seen ends
    · rw [if_neg (by simpa using quote)] at short
      obtain plain | rfl := plain c List.mem_cons_self
      · rw [List.cons_append, literalLines_plain plain (fun same => absurd same quote), next short]
      · rw [List.cons_append, literalLines_newline, next short]

/-! ## The plainest quotes -/

/-- What the quotes that are chosen for a text say about it. -/
theorem of_cases (cs : List Char) :
    Quoting.of cs = .basic ∨
    (Quoting.of cs = .literal ∧ (∀ c ∈ cs, isPlain c = true) ∧ '\'' ∉ cs) ∨
    Quoting.of cs = .basicLines ∨
    (Quoting.of cs = .literalLines ∧ (∀ c ∈ cs, isPlain c = true ∨ c = '\n') ∧ longestRun '\'' 0 0 cs ≤ 2) := by
  -- Without characters that need an escape, all are plain but the ends of lines.
  have plain : cs.any needsEscape = false → ∀ c ∈ cs, isPlain c = true ∨ c = '\n' := by
    intro spared c member
    have spared := List.any_eq_false.1 spared c member
    simp only [needsEscape, Bool.and_eq_true, Bool.not_eq_true', bne_iff_ne, not_and] at spared
    by_cases feed : c = '\n'
    · exact .inr feed
    · exact .inl (by grind)
  unfold Quoting.of
  simp only []
  split
  · exact .inl rfl
  · split
    · rename_i test
      simp only [Bool.and_eq_true, Bool.not_eq_true', beq_iff_eq] at test
      obtain ⟨⟨spared, noLines⟩, noQuotes⟩ := test
      refine .inr (.inl ⟨rfl, fun c member => ?_, notMem_of_longestRun noQuotes⟩)
      obtain plain | rfl := plain spared c member
      · exact plain
      · simp [member] at noLines
    · split
      · exact .inr (.inr (.inl rfl))
      · split
        · rename_i test
          simp only [Bool.and_eq_true, Bool.not_eq_true', decide_eq_true_eq] at test
          exact .inr (.inr (.inr ⟨rfl, plain test.1, test.2⟩))
        · split
          · exact .inr (.inr (.inl rfl))
          · exact .inl rfl

theorem skipFirstNewline_cons {c : Char} (noFeed : c ≠ '\n') (noReturn : c ≠ '\r') (r : List Char) :
    skipFirstNewline (c :: r) = c :: r := by
  rw [skipFirstNewline, afterNewline?_cons noFeed noReturn]
  rfl

theorem text?_doubleLines (r : List Char) : text? ('"' :: '"' :: '"' :: r) =
    basicLines [] (skipFirstNewline r).length (skipFirstNewline r) := rfl

theorem text?_singleLines (r : List Char) :
    text? ('\'' :: '\'' :: '\'' :: r) = literalLines [] (skipFirstNewline r) := rfl

/-- Without three quotes at the start, one quote opens a text. -/
theorem text?_quoted {quote : Char} {r : List Char} (unquoted : Unquoted quote r) :
    text? (quote :: r) = quotedText? (quote :: r) := by
  rw [text?]
  · rintro r' ⟨⟩
    exact unquoted r' rfl
  · rintro r' ⟨⟩
    exact unquoted r' rfl

theorem text?_double {r : List Char} (unquoted : Unquoted '"' r) :
    text? ('"' :: r) = basic [] r.length r := text?_quoted unquoted

theorem text?_single {r : List Char} (unquoted : Unquoted '\'' r) : text? ('\'' :: r) = literal [] r :=
  text?_quoted unquoted

/-- The end of the line after the opening quotes is no part of a text, and nothing else is taken for it. -/
theorem skipFirstNewline_start {q : Quoting} (lines : q.hasLines = true) {cs inside : List Char}
    (solid : '\n' ∉ cs → skipFirstNewline inside = inside) :
    skipFirstNewline ((if q.hasLines && cs.contains '\n' then ['\n'] else []) ++ inside) = inside := by
  by_cases several : '\n' ∈ cs
  · rw [if_pos (by simpa [lines] using several)]
    rfl
  · rw [if_neg (by simpa [lines] using several)]
    exact solid several

section Written

variable {rest : List Char} (ends : ∀ quote, quote = '"' ∨ quote = '\'' → Ends quote rest)

include ends

/-- Characters in one pair of double quotes are read as they are. -/
theorem text?_writeBasic (cs : List Char) :
    text? (writeQuoted .basic cs ++ rest) = some (String.ofList cs, rest) := by
  have written : writeQuoted .basic cs ++ rest = '"' :: (writeEscaped .basic 0 cs ++ '"' :: rest) := by
    simp [writeQuoted, Quoting.delimiter, Quoting.hasLines, Quoting.hasEscapes]
  -- Three quotes would open lines: the first character is written as no quote, and an empty text ends there.
  have unquoted : Unquoted '"' (writeEscaped .basic 0 cs ++ '"' :: rest) := by
    cases cs with
    | nil => exact unquoted_cons_of_ends _ (ends _ (.inl rfl))
    | cons c cs =>
      obtain ⟨d, w, spelled, quote, -⟩ := head_writeEscaped .basic 0 c cs
      rw [spelled]
      exact unquoted_cons (fun same => absurd (quote same).2 (Nat.lt_irrefl 0)) _
  rw [written, text?_double unquoted, basic_writeEscaped]
  · rfl
  · rw [List.length_append, List.length_cons]
    omega

/-- Plain characters without single quotes are read as they are in one pair of these. -/
theorem text?_writeLiteral {cs : List Char} (plain : ∀ c ∈ cs, isPlain c = true) (noQuote : '\'' ∉ cs) :
    text? (writeQuoted .literal cs ++ rest) = some (String.ofList cs, rest) := by
  have written : writeQuoted .literal cs ++ rest = '\'' :: (cs ++ '\'' :: rest) := by
    simp [writeQuoted, Quoting.delimiter, Quoting.hasLines, Quoting.hasEscapes]
  have unquoted : Unquoted '\'' (cs ++ '\'' :: rest) := by
    cases cs with
    | nil => exact unquoted_cons_of_ends _ (ends _ (.inr rfl))
    | cons c cs =>
      refine unquoted_cons ?_ _
      rintro rfl
      exact noQuote List.mem_cons_self
  rw [written, text?_single unquoted, literal_append plain noQuote]
  rfl

/-- Characters in three double quotes are read as they are, on however many lines. -/
theorem text?_writeBasicLines (cs : List Char) :
    text? (writeQuoted .basicLines cs ++ rest) = some (String.ofList cs, rest) := by
  have written : writeQuoted .basicLines cs ++ rest = '"' :: '"' :: '"' ::
      ((if Quoting.basicLines.hasLines && cs.contains '\n' then ['\n'] else []) ++
        (writeEscaped .basicLines 0 cs ++ '"' :: '"' :: '"' :: rest)) := by
    simp [writeQuoted, Quoting.delimiter, Quoting.hasEscapes]
  -- A text of one line does not begin on the next one.
  have solid : '\n' ∉ cs → skipFirstNewline (writeEscaped .basicLines 0 cs ++
      '"' :: '"' :: '"' :: rest) = writeEscaped .basicLines 0 cs ++ '"' :: '"' :: '"' :: rest := by
    intro single
    cases cs with
    | nil => rfl
    | cons c cs =>
      obtain ⟨d, w, spelled, -, feed, noReturn⟩ := head_writeEscaped .basicLines 0 c cs
      have noFeed : d ≠ '\n' := fun same => single (feed same ▸ List.mem_cons_self)
      rw [spelled]
      exact skipFirstNewline_cons noFeed noReturn _
  rw [written, text?_doubleLines, skipFirstNewline_start rfl solid,
    basicLines_writeEscaped _ _ _ (ends _ (.inl rfl))]
  · rfl
  · rw [List.length_append, List.length_cons]
    omega

/-- Plain characters and ends of lines with no three single quotes are read as they are in three of these. -/
theorem text?_writeLiteralLines {cs : List Char} (plain : ∀ c ∈ cs, isPlain c = true ∨ c = '\n')
    (short : longestRun '\'' 0 0 cs ≤ 2) :
    text? (writeQuoted .literalLines cs ++ rest) = some (String.ofList cs, rest) := by
  have written : writeQuoted .literalLines cs ++ rest = '\'' :: '\'' :: '\'' ::
      ((if Quoting.literalLines.hasLines && cs.contains '\n' then ['\n'] else []) ++
        (cs ++ '\'' :: '\'' :: '\'' :: rest)) := by
    simp [writeQuoted, Quoting.delimiter, Quoting.hasEscapes]
  have solid : '\n' ∉ cs → skipFirstNewline (cs ++ '\'' :: '\'' :: '\'' :: rest) =
      cs ++ '\'' :: '\'' :: '\'' :: rest := by
    intro single
    cases cs with
    | nil => rfl
    | cons c cs =>
      obtain plain | rfl := plain c List.mem_cons_self
      · exact skipFirstNewline_cons (ne_of_isPlain plain).1 (ne_of_isPlain plain).2 _
      · exact absurd List.mem_cons_self single
  rw [written, text?_singleLines, skipFirstNewline_start rfl solid,
    literalLines_append plain short _ (ends _ (.inr rfl))]
  rfl

end Written

/-- **What is written as a text is read as that text**, whatever its characters are, and nothing of what
follows it is read with it, unless that is a quote. -/
theorem text?_writeText (s : String) {rest : List Char} (ends : ∀ quote, quote = '"' ∨ quote = '\'' → Ends quote rest) :
    text? (writeText s ++ rest) = some (s, rest) := by
  have whole : String.ofList s.toList = s := String.ofList_toList
  rw [writeText]
  generalize s.toList = cs at whole
  rw [← whole]
  obtain kind | ⟨kind, plain, noQuote⟩ | kind | ⟨kind, plain, short⟩ := of_cases cs
  · rw [kind]
    exact text?_writeBasic ends cs
  · rw [kind]
    exact text?_writeLiteral ends plain noQuote
  · rw [kind]
    exact text?_writeBasicLines ends cs
  · rw [kind]
    exact text?_writeLiteralLines ends plain short

end VaultConsole.Toml
