import VaultConsole.FrontMatter
import VaultConsole.Proofs.Slices

/-!
# The grammar of front matter

A `Layout` is a text that is made up as front matter prescribes: a line that is an opening fence, the lines
of the block, none of which is a closing fence, the line that is one, and whatever follows. A document has
a block just if it is the text of a layout, and then of one only (`Layout.text_injective`); the block is what
stands between the two fences, it lies between the bytes that are looked for (`Layout.bounds?_body`), and
these are always places of the document (`bounds?_valid`).
-/

namespace VaultConsole

namespace FrontMatter

/-! ## Lines -/

/-- Whether characters are one line with the line feed that ends it. -/
def IsLine (cs : List Char) : Prop := ∃ body, cs = body ++ ['\n'] ∧ '\n' ∉ body

/-- Whether characters are the line before a rest: a line feed ends it, or it ends the text. -/
def IsLineBefore (rest cs : List Char) : Prop := IsLine cs ∨ '\n' ∉ cs ∧ rest = []

theorem lines_append_of_isLine {line : List Char} (isLine : IsLine line) (rest : List Char) :
    lines (line ++ rest) = line :: lines rest := by
  obtain ⟨body, rfl, plain⟩ := isLine
  induction body with
  | nil => simp [lines]
  | cons c body ih =>
    rw [List.mem_cons, not_or] at plain
    have other : c ≠ '\n' := fun same => plain.1 same.symm
    have later := ih plain.2
    simp only [List.cons_append, lines, if_neg other] at later ⊢
    rw [later]

/-- A text without line feed is one line, unless it is empty. -/
theorem lines_of_not_mem {cs : List Char} (plain : '\n' ∉ cs) (filled : cs ≠ []) : lines cs = [cs] := by
  induction cs with
  | nil => exact absurd rfl filled
  | cons c cs ih =>
    rw [List.mem_cons, not_or] at plain
    have other : c ≠ '\n' := fun same => plain.1 same.symm
    rw [lines, if_neg other]
    cases cs with
    | nil => rfl
    | cons d ds => rw [ih plain.2 (List.cons_ne_nil d ds)]

/-- The line before a rest is the first of the lines. -/
theorem lines_append {line rest : List Char} (isLine : IsLineBefore rest line) (filled : line ≠ []) :
    lines (line ++ rest) = line :: lines rest := by
  obtain isLine | ⟨plain, rfl⟩ := isLine
  · exact lines_append_of_isLine isLine rest
  · rw [List.append_nil, lines_of_not_mem plain filled]
    rfl

/-- Lines that end with line feeds are the first of the lines. -/
theorem lines_flatten_append {before : List (List Char)} (areLines : ∀ l ∈ before, IsLine l)
    (rest : List Char) : lines (before.flatten ++ rest) = before ++ lines rest := by
  induction before with
  | nil => rfl
  | cons l before ih =>
    rw [List.flatten_cons, List.append_assoc, lines_append_of_isLine (areLines l List.mem_cons_self),
      ih fun l' there => areLines l' (List.mem_cons_of_mem _ there)]
    rfl

/-- The first line of a text, and the text that the other lines are the lines of. -/
theorem lines_eq_cons {cs l : List Char} {ls : List (List Char)} (h : lines cs = l :: ls) :
    ∃ rest, cs = l ++ rest ∧ lines rest = ls ∧ IsLineBefore rest l := by
  -- A character goes to the front of the first line, unless it ends a line of its own.
  induction cs generalizing l ls with
  | nil => cases h
  | cons c cs ih =>
    by_cases feed : c = '\n'
    · rw [lines, if_pos feed] at h
      obtain ⟨rfl, rfl⟩ := List.cons.inj h
      exact ⟨cs, by rw [feed]; rfl, rfl, .inl ⟨[], rfl, by simp⟩⟩
    · rw [lines, if_neg feed] at h
      cases split : lines cs with
      | nil =>
        rw [split] at h
        obtain ⟨rfl, rfl⟩ := List.cons.inj h
        have empty : cs = [] := by
          cases cs with
          | nil => rfl
          | cons d ds =>
            unfold lines at split
            split at split
            · cases split
            · split at split
              · cases split
              · cases split
        subst empty
        exact ⟨[], rfl, rfl, .inr ⟨by simpa using fun same => feed same.symm, rfl⟩⟩
      | cons first others =>
        rw [split] at h
        obtain ⟨rfl, rfl⟩ := List.cons.inj h
        obtain ⟨rest, rfl, same, isLine⟩ := ih split
        refine ⟨rest, rfl, same, ?_⟩
        obtain ⟨body, rfl, plain⟩ | ⟨plain, ends⟩ := isLine
        · exact .inl ⟨c :: body, rfl, by simpa [plain] using fun same => feed same.symm⟩
        · exact .inr ⟨by simpa [plain] using fun same => feed same.symm, ends⟩

/-- Every line but the last ends with a line feed. -/
theorem lines_eq_append_cons {cs l : List Char} {before after : List (List Char)}
    (h : lines cs = before ++ l :: after) :
    ∃ rest, cs = before.flatten ++ l ++ rest ∧ IsLineBefore rest l ∧ ∀ l' ∈ before, IsLine l' := by
  induction before generalizing cs with
  | nil =>
    obtain ⟨rest, split, -, isLine⟩ := lines_eq_cons h
    exact ⟨rest, split, isLine, by simp⟩
  | cons first before ih =>
    obtain ⟨others, rfl, same, isLine⟩ := lines_eq_cons h
    obtain ⟨rest, rfl, last, areLines⟩ := ih same
    refine ⟨rest, by simp, last, ?_⟩
    -- The first line does not end the text, since lines follow it.
    have first : IsLine first := by
      obtain isLine | ⟨-, ends⟩ := isLine
      · exact isLine
      · rw [ends] at same
        cases before with
        | nil => cases same
        | cons _ _ => cases same
    intro l' there
    obtain rfl | there := List.mem_cons.1 there
    · exact first
    · exact areLines l' there

/-! ## Fences -/

/-- Whether a line opens a block. -/
def Opens (line : List Char) : Prop := Text.dropBlankEnd line = ['-', '-', '-']

/-- Whether a line closes a block. -/
def Closes (line : List Char) : Prop :=
  Text.dropBlankEnd line = ['-', '-', '-'] ∨ Text.dropBlankEnd line = ['.', '.', '.']

instance (line : List Char) : Decidable (Opens line) := inferInstanceAs (Decidable (_ = _))

instance (line : List Char) : Decidable (Closes line) := inferInstanceAs (Decidable (_ ∨ _))

theorem isClosing_iff (line : List Char) : isClosing line = true ↔ Closes line := by
  simp [isClosing, closingFences, Closes]

theorem isClosing_eq_false_iff (line : List Char) : isClosing line = false ↔ ¬ Closes line := by
  rw [← isClosing_iff, Bool.not_eq_true]

theorem Opens.head?_eq {line : List Char} (opens : Opens line) : line.head? = some '-' :=
  Text.head_dropBlankEnd (by rw [show Text.dropBlankEnd line = _ from opens]; rfl)

theorem Closes.ne_nil {line : List Char} (closes : Closes line) : line ≠ [] := by
  rintro rfl
  obtain fence | fence := closes
  · cases fence
  · cases fence

/-- The place of the closing fence: the first line that is one, after the bytes of the lines before it. -/
theorem closingAt?_eq_some_iff {offset stop : Nat} {ls : List (List Char)} :
    closingAt? offset ls = some stop ↔ ∃ before l after, ls = before ++ l :: after ∧
      (∀ l' ∈ before, ¬ Closes l') ∧ Closes l ∧ stop = offset + Text.byteLength before.flatten := by
  -- Along the lines, with the bytes passed so far: the first line that closes ends the search.
  induction ls generalizing offset with
  | nil => simp [closingAt?]
  | cons l ls ih =>
    cases closing : isClosing l with
    | true =>
      rw [closingAt?, if_pos closing]
      constructor
      · rintro ⟨⟩
        exact ⟨[], l, ls, rfl, by simp, (isClosing_iff l).1 closing, rfl⟩
      · rintro ⟨before, l', after, split, open', closes, rfl⟩
        cases before with
        | nil => rfl
        | cons first before =>
          obtain ⟨rfl, -⟩ := List.cons.inj split
          exact absurd ((isClosing_iff l).1 closing) (open' l List.mem_cons_self)
    | false =>
      have goes := (isClosing_eq_false_iff l).1 closing
      rw [closingAt?, if_neg (by rw [closing]; exact Bool.false_ne_true)]
      refine ih.trans ⟨?_, ?_⟩
      · rintro ⟨before, l', after, rfl, open', closes, rfl⟩
        refine ⟨l :: before, l', after, rfl, ?_, closes, ?_⟩
        · intro l'' there
          obtain rfl | there := List.mem_cons.1 there
          · exact goes
          · exact open' l'' there
        · rw [List.flatten_cons, Text.byteLength_append, Nat.add_assoc]
      · rintro ⟨before, l', after, split, open', closes, rfl⟩
        cases before with
        | nil =>
          obtain ⟨rfl, -⟩ := List.cons.inj split
          exact absurd closes goes
        | cons first before =>
          obtain ⟨rfl, rfl⟩ := List.cons.inj split
          refine ⟨before, l', after, rfl, fun l'' there => open' l'' (List.mem_cons_of_mem _ there), closes, ?_⟩
          rw [List.flatten_cons, Text.byteLength_append, Nat.add_assoc]

/-! ## Layouts -/

/-- A text that begins with a block, in its parts. -/
@[ext]
structure Layout where
  /-- The byte order mark, or nothing. -/
  mark : List Char
  opening : List Char
  block : List (List Char)
  closing : List Char
  rest : List Char
  mark_eq : mark = [] ∨ mark = [byteOrderMark]
  opening_isLine : IsLine opening
  opens : Opens opening
  block_areLines : ∀ l ∈ block, IsLine l
  block_open : ∀ l ∈ block, ¬ Closes l
  closing_isLine : IsLineBefore rest closing
  closes : Closes closing

namespace Layout

/-- The text without the mark. -/
def body (l : Layout) : List Char := l.opening ++ l.block.flatten ++ l.closing ++ l.rest

/-- The text. -/
def text (l : Layout) : List Char := l.mark ++ l.body

/-- The block as one text. -/
def content (l : Layout) : String := String.ofList l.block.flatten

theorem lines_body (l : Layout) : lines l.body = l.opening :: (l.block ++ l.closing :: lines l.rest) := by
  rw [body, List.append_assoc, List.append_assoc, lines_append_of_isLine l.opening_isLine,
    lines_flatten_append l.block_areLines, lines_append l.closing_isLine l.closes.ne_nil]

theorem head?_body (l : Layout) : l.body.head? = some '-' := by
  rw [body, List.append_assoc, List.append_assoc, List.head?_append, l.opens.head?_eq]
  rfl

theorem dropMark_text (l : Layout) : dropMark l.text = l.body := by
  obtain bare | marked := l.mark_eq
  · have head := l.head?_body
    rw [text, bare, List.nil_append]
    cases body : l.body with
    | nil => rfl
    | cons c cs =>
      rw [body] at head
      rw [dropMark, if_neg (by rw [Option.some.inj head]; decide)]
  · rw [text, marked]
    rfl

/-- The block lies between the opening and the closing fence. -/
theorem bounds?_body (l : Layout) : bounds? l.body =
    some (Text.byteLength l.opening, Text.byteLength l.opening + Text.byteLength l.block.flatten) := by
  have found : closingAt? (Text.byteLength l.opening) (l.block ++ l.closing :: lines l.rest) =
      some (Text.byteLength l.opening + Text.byteLength l.block.flatten) :=
    closingAt?_eq_some_iff.2 ⟨l.block, l.closing, lines l.rest, rfl, l.block_open, l.closes, rfl⟩
  have opens : Text.dropBlankEnd l.opening = openingFence := l.opens
  simp only [bounds?, l.lines_body, if_pos opens, found]
  rfl

theorem extract_text (l : Layout) : extract (String.ofList l.text) = some l.content := by
  simp only [extract, String.toList_ofList, l.dropMark_text, l.bounds?_body]
  rw [body, List.append_assoc, Text.slice?_append]
  rfl

/-- What follows a closing line does not matter. -/
theorem extract_append (l : Layout) (ended : l.rest = []) (isLine : IsLine l.closing) (rest : String) :
    extract (String.ofList l.text ++ rest) = some l.content := by
  let longer : Layout := { l with rest := rest.toList, closing_isLine := .inl isLine }
  have whole : String.ofList l.text ++ rest = String.ofList longer.text := by
    rw [← String.toList_inj, String.toList_append, String.toList_ofList, String.toList_ofList, text, text, body, body,
      ended, List.append_nil, List.append_assoc]
  rw [whole, longer.extract_text]
  rfl

/-- Where the first of some elements stands in a list is unique. -/
theorem append_cons_inj {α : Type} {p : α → Prop} {as bs : List α} {a b : α} {cs ds : List α}
    (as' : ∀ x ∈ as, ¬ p x) (a' : p a) (bs' : ∀ x ∈ bs, ¬ p x) (b' : p b)
    (same : as ++ a :: cs = bs ++ b :: ds) : as = bs ∧ a = b := by
  induction as generalizing bs with
  | nil =>
    cases bs with
    | nil => exact ⟨rfl, (List.cons.inj same).1⟩
    | cons x bs =>
      rw [(List.cons.inj same).1] at a'
      exact absurd a' (bs' x List.mem_cons_self)
  | cons x as ih =>
    cases bs with
    | nil =>
      rw [← (List.cons.inj same).1] at b'
      exact absurd b' (as' x List.mem_cons_self)
    | cons y bs =>
      obtain ⟨rfl, others⟩ := List.cons.inj same
      obtain ⟨rfl, rfl⟩ := ih (fun z there => as' z (List.mem_cons_of_mem _ there))
        (fun z there => bs' z (List.mem_cons_of_mem _ there)) others
      exact ⟨rfl, rfl⟩

/-- A text is made up in one way only. -/
theorem text_injective : Function.Injective text := by
  intro l l' same
  have bodies : l.body = l'.body := by rw [← l.dropMark_text, same, l'.dropMark_text]
  have marks : l.mark = l'.mark := List.append_cancel_right (by rw [text, text, bodies] at same; exact same)
  have allLines := l.lines_body
  rw [bodies, l'.lines_body] at allLines
  obtain ⟨openings, others⟩ := List.cons.inj allLines
  obtain ⟨blocks, closings⟩ := append_cons_inj l'.block_open l'.closes l.block_open l.closes others
  have rests : l.rest = l'.rest := by
    rw [body, body, openings, blocks, closings] at bodies
    exact List.append_cancel_left bodies
  exact Layout.ext marks openings.symm blocks.symm closings.symm rests

end Layout

/-- A text in which a block is found is that of a layout. -/
theorem exists_layout {text : List Char} {bounds : Nat × Nat} (found : bounds? (dropMark text) = some bounds) :
    ∃ l : Layout, l.text = text := by
  -- At most one mark is taken off, and only at the start.
  have marked : ∃ mark, (mark = [] ∨ mark = [byteOrderMark]) ∧ text = mark ++ dropMark text := by
    cases text with
    | nil => exact ⟨[], .inl rfl, rfl⟩
    | cons c cs =>
      by_cases isMark : c = byteOrderMark
      · exact ⟨[c], .inr (by rw [isMark]), by rw [dropMark, if_pos isMark]; rfl⟩
      · exact ⟨[], .inl rfl, by rw [dropMark, if_neg isMark]; rfl⟩
  obtain ⟨mark, mark_eq, whole⟩ := marked
  rw [bounds?] at found
  split at found
  · cases found
  · rename_i opening others split
    split at found
    · rename_i opens
      obtain ⟨stop, closed, -⟩ := Option.map_eq_some_iff.1 found
      obtain ⟨block, closing, after, rfl, block_open, closes, -⟩ := closingAt?_eq_some_iff.1 closed
      have split : lines (dropMark text) = (opening :: block) ++ closing :: after := split
      obtain ⟨rest, cut, last, areLines⟩ := lines_eq_append_cons split
      refine ⟨⟨mark, opening, block, closing, rest, mark_eq, areLines _ List.mem_cons_self, opens,
        fun l there => areLines l (List.mem_cons_of_mem _ there), block_open, last, closes⟩, ?_⟩
      rw [whole, cut]
      rfl
    · cases found

/-- The bounds of a block are places of the text, in order. -/
theorem bounds?_valid {text : List Char} {start stop : Nat}
    (found : bounds? (dropMark text) = some (start, stop)) :
    ∃ b, Text.slice? (String.ofList (dropMark text)) start stop = some b := by
  obtain ⟨l, rfl⟩ := exists_layout found
  rw [l.dropMark_text] at found ⊢
  rw [l.bounds?_body] at found
  obtain ⟨rfl, rfl⟩ := Prod.mk.inj (Option.some.inj found)
  exact ⟨l.content, by rw [Layout.body, List.append_assoc, Text.slice?_append]; rfl⟩

/-- A document has a block just if it is made up of an opening fence, lines that are no closing fence, a
closing fence and a rest. It is so in one way only, the block is the lines between the fences, the bounds by
which it is cut out are always places of the document, and the rest does not matter. -/
theorem extract_layout (text : String) :
    (∀ b, extract text = some b ↔ ∃ l : Layout, String.ofList l.text = text ∧ l.content = b) ∧
    (extract text = none ↔ ∀ l : Layout, String.ofList l.text ≠ text) ∧
    (∀ l l' : Layout, String.ofList l.text = text → String.ofList l'.text = text → l = l') ∧
    (∀ start stop, bounds? (dropMark text.toList) = some (start, stop) → start ≤ stop ∧
      (⟨start⟩ : String.Pos.Raw).IsValid (String.ofList (dropMark text.toList)) ∧
      (⟨stop⟩ : String.Pos.Raw).IsValid (String.ofList (dropMark text.toList))) ∧
    ∀ (l : Layout) (rest : List Char) (closing_isLine : IsLineBefore rest l.closing),
      String.ofList l.text = text →
        extract (String.ofList { l with rest, closing_isLine }.text) = extract text := by
  -- A block is found only in a text that is laid out, and there the layout tells it.
  have found : ∀ {b}, extract text = some b → ∃ l : Layout, String.ofList l.text = text := by
    intro b extracted
    rw [extract] at extracted
    cases bounds : bounds? (dropMark text.toList) with
    | none =>
      rw [bounds] at extracted
      cases extracted
    | some place =>
      obtain ⟨l, same⟩ := exists_layout bounds
      exact ⟨l, by rw [same, String.ofList_toList]⟩
  refine ⟨fun b => ⟨?_, ?_⟩, ⟨?_, ?_⟩, ?_, ?_, ?_⟩
  · intro extracted
    obtain ⟨l, rfl⟩ := found extracted
    rw [l.extract_text] at extracted
    exact ⟨l, rfl, Option.some.inj extracted⟩
  · rintro ⟨l, rfl, rfl⟩
    exact l.extract_text
  · rintro nothing l rfl
    rw [l.extract_text] at nothing
    cases nothing
  · intro unmatched
    cases extracted : extract text with
    | none => rfl
    | some b =>
      obtain ⟨l, same⟩ := found extracted
      exact absurd same (unmatched l)
  · rintro l l' rfl same
    exact Layout.text_injective (String.ofList_injective same).symm
  · intro start stop bounds
    obtain ⟨b, slice⟩ := bounds?_valid bounds
    rw [Text.slice?] at slice
    split at slice
    · assumption
    · cases slice
  · rintro l rest closing_isLine rfl
    rw [l.extract_text, Layout.extract_text]
    rfl

example : extract "\ufeff---\r\nkey: →\n...\nbody" = some "key: →\n" := by decide

end FrontMatter

end VaultConsole
