import Mathlib.Algebra.BigOperators.Group.List.Basic
import Mathlib.Data.List.TakeWhile
import VaultConsole.Yaml.Reader

/-!
# Texts without a document

A line that holds nothing but spaces and a comment is passed over by the lexer (`toToken_bare`). So a text of such
lines has no tokens, and it reads as null (`read_bare`).
-/

namespace VaultConsole.Yaml

/-- Whether characters are a comment, or none are there. -/
def IsComment (comment : List Char) : Prop :=
  comment = [] ∨ ∃ cs, comment = '#' :: cs ∧ ∀ c ∈ cs, isAllowed c = true ∧ isBreak c = false

/-- Whether a line is bare: spaces, then perhaps a comment, and a line break. -/
inductive IsBare : List Char → Prop where
  | intro (n : Nat) {comment ending : List Char} (isComment : IsComment comment)
      (ends : ending = ['\n'] ∨ ending = ['\r', '\n']) : IsBare (List.replicate n ' ' ++ (comment ++ ending))

namespace IsBare

variable {line : List Char}

theorem allowed (bare : IsBare line) : ∀ c ∈ line, isAllowed c = true := by
  obtain ⟨n, isComment, ends⟩ := bare
  intro c member
  rw [List.mem_append, List.mem_append] at member
  obtain space | inside | last := member
  · rw [List.eq_of_mem_replicate space]
    decide
  · obtain rfl | ⟨cs, rfl, plain⟩ := isComment
    · cases inside
    · obtain rfl | inside := List.mem_cons.1 inside
      · decide
      · exact (plain c inside).1
  · obtain rfl | rfl := ends
    · rw [List.mem_singleton.1 last]
      decide
    · rw [List.mem_cons, List.mem_singleton] at last
      obtain rfl | rfl := last
      · decide
      · decide

theorem ne_nil (bare : IsBare line) : line ≠ [] := by
  obtain ⟨n, isComment, rfl | rfl⟩ := bare
  · simp
  · simp

/-- A bare line does not begin with a byte order mark. -/
theorem headD_ne (bare : IsBare line) (rest : List Char) : (line ++ rest).headD endMark ≠ Lexer.byteOrderMark := by
  obtain ⟨n, isComment, ends⟩ := bare
  have others : ' ' ≠ Lexer.byteOrderMark ∧ '#' ≠ Lexer.byteOrderMark ∧ '\n' ≠ Lexer.byteOrderMark ∧
      '\r' ≠ Lexer.byteOrderMark := by decide
  cases n with
  | succ n => exact others.1
  | zero =>
    obtain rfl | ⟨cs, rfl, -⟩ := isComment
    · obtain rfl | rfl := ends
      · exact others.2.2.1
      · exact others.2.2.2
    · exact others.2.1

end IsBare

/-! ## Places behind what is passed over -/

namespace Cursor

theorem rest_dropWhile (p : Char → Bool) (c : Cursor) : (c.dropWhile p).rest = c.rest.dropWhile p := by
  have split := List.takeWhile_append_dropWhile (p := p) (l := c.rest)
  calc (c.dropWhile p).rest = c.rest.drop (c.rest.takeWhile p).length := rfl
    _ = (c.rest.takeWhile p ++ c.rest.dropWhile p).drop (c.rest.takeWhile p).length := by rw [split]
    _ = c.rest.dropWhile p := List.drop_left

/-- Characters with a property are passed over up to the first one without it. -/
theorem rest_dropWhile_append {p : Char → Bool} {c : Cursor} {passed : List Char} {d : Char} {rest : List Char}
    (here : c.rest = passed ++ d :: rest) (all : ∀ x ∈ passed, p x = true) (stops : p d = false) :
    (c.dropWhile p).rest = d :: rest := by
  rw [rest_dropWhile, here, List.dropWhile_append_of_pos all, List.dropWhile_cons, stops]
  rfl

/-- A comment is passed over up to the end of the line. -/
theorem rest_dropComment {c : Cursor} {comment rest : List Char} {d : Char} (isComment : IsComment comment)
    (breaks : isBreak d = true) (here : c.rest = comment ++ d :: rest) : c.dropComment.rest = d :: rest := by
  obtain rfl | ⟨cs, rfl, plain⟩ := isComment
  · have plain : ¬ (c.head == '#') = true := by
      rw [head, here, beq_iff_eq]
      rintro rfl
      exact absurd breaks (by decide)
    rw [dropComment, if_neg plain, here]
    rfl
  · have marked : (c.head == '#') = true := by
      rw [head, here]
      rfl
    rw [dropComment, if_pos marked]
    refine rest_dropWhile_append here (fun x member => ?_) (by rw [isBreakOrEnd, breaks]; rfl)
    obtain rfl | inside := List.mem_cons.1 member
    · decide
    · have other : (x == endMark) = false := by
        rw [beq_eq_false_iff_ne]
        rintro rfl
        exact absurd (plain endMark inside).1 (by decide)
      rw [isBreakOrEnd, (plain x inside).2, other]
      rfl

end Cursor

namespace Lexer

variable {l : Lexer} {line rest : List Char} {lines : List (List Char)}

/-- A bare line is passed over. -/
theorem toToken_bare (bare : IsBare line) (here : l.cursor.rest = line ++ rest) (block : l.inFlow = false)
    (begins : l.keyAllowed = true) (fuel : Nat) :
    ∃ c, c.rest = rest ∧ toToken (fuel + 1) l = toToken fuel { l with cursor := c } := by
  have unmarked : ¬ (l.cursor.index == 0 && l.cursor.head == byteOrderMark) = true := by
    rw [Bool.and_eq_true, beq_iff_eq, beq_iff_eq, Cursor.head, here]
    exact fun marked => bare.headD_ne rest marked.2
  obtain ⟨n, isComment, ends⟩ := bare
  rename_i comment ending
  obtain ⟨d, ending, rfl, breaks, next⟩ : ∃ d tail, ending = d :: tail ∧ isBreak d = true ∧
      ∀ c : Cursor, c.rest = d :: (tail ++ rest) → c.skipBreak.rest = rest := by
    obtain rfl | rfl := ends
    · exact ⟨_, _, rfl, rfl, fun c here => by simp [Cursor.skipBreak, here]⟩
    · exact ⟨_, _, rfl, rfl, fun c here => by simp [Cursor.skipBreak, here]⟩
  -- The spaces are passed over, then the comment, and then the break.
  have spaces : (l.cursor.dropWhile fun x => x == ' ' || (false && x == '\t')).rest =
      comment ++ d :: (ending ++ rest) := by
    have whole : l.cursor.rest = List.replicate n ' ' ++ (comment ++ d :: (ending ++ rest)) := by
      rw [here]
      simp
    have passed : ∀ x ∈ List.replicate n ' ', (x == ' ' || (false && x == '\t')) = true := by
      intro x member
      rw [List.eq_of_mem_replicate member]
      rfl
    obtain rfl | ⟨cs, rfl, -⟩ := isComment
    · refine Cursor.rest_dropWhile_append whole passed ?_
      rw [Bool.false_and, Bool.or_false, beq_eq_false_iff_ne]
      rintro rfl
      exact absurd breaks (by decide)
    · exact Cursor.rest_dropWhile_append whole passed rfl
  have after := Cursor.rest_dropComment isComment breaks spaces
  have ended : isBreak (l.cursor.dropWhile fun x => x == ' ' || (false && x == '\t')).dropComment.head = true := by
    rw [Cursor.head, after]
    exact breaks
  refine ⟨_, next _ after, ?_⟩
  rw [toToken]
  simp only [if_neg unmarked, block, begins, Bool.not_true, Bool.or_false, ended, if_true, Bool.true_or]

/-- Bare lines are passed over up to the end of the text. -/
theorem toToken_lines (bare : ∀ line ∈ lines, IsBare line) (here : l.cursor.rest = lines.flatten)
    (block : l.inFlow = false) (begins : l.keyAllowed = true) {fuel : Nat} (enough : lines.length < fuel) :
    ∃ c, c.rest = [] ∧ toToken fuel l = { l with cursor := c } := by
  -- Each line takes one unit of fuel, and the end of the text takes the last one.
  induction lines generalizing l fuel with
  | nil =>
    obtain ⟨fuel, rfl⟩ := Nat.exists_eq_succ_of_ne_zero (Nat.ne_of_gt enough)
    have ended : ∀ c : Cursor, c.rest = [] → c.head = endMark := by
      intro c spent
      rw [Cursor.head, spent]
      rfl
    have unmarked : ¬ (l.cursor.index == 0 && l.cursor.head == byteOrderMark) = true := by
      rw [ended l.cursor here, Bool.and_eq_true]
      exact fun marked => absurd marked.2 (by decide)
    have left : (l.cursor.dropWhile fun x => x == ' ' || (false && x == '\t')).rest = [] := by
      rw [Cursor.rest_dropWhile, here]
      rfl
    have same : (l.cursor.dropWhile fun x => x == ' ' || (false && x == '\t')).dropComment =
        l.cursor.dropWhile fun x => x == ' ' || (false && x == '\t') := by
      rw [Cursor.dropComment, ended _ left]
      rfl
    have stops : isBreak endMark = false := by decide
    refine ⟨_, left, ?_⟩
    rw [toToken]
    simp only [if_neg unmarked, block, begins, Bool.not_true, Bool.or_false, same, ended _ left, stops,
      Bool.false_eq_true, if_false]
  | cons line lines ih =>
    obtain ⟨fuel, rfl⟩ := Nat.exists_eq_succ_of_ne_zero (Nat.ne_of_gt (Nat.zero_lt_of_lt enough))
    obtain ⟨c, left, passed⟩ := toToken_bare (bare line List.mem_cons_self) here block begins fuel
    obtain ⟨c', spent, ended⟩ := ih (l := { l with cursor := c }) (fun x hx => bare x (List.mem_cons_of_mem _ hx)) left
      block begins (Nat.lt_of_succ_lt_succ enough)
    exact ⟨c', spent, passed.trans ended⟩

/-- A text of bare lines has no tokens. -/
theorem tokensOf_bare (bare : ∀ line ∈ lines, IsBare line) : tokensOf lines.flatten = .ok [] := by
  have allowed : lines.flatten.all isAllowed = true := by
    rw [List.all_eq_true]
    intro c member
    obtain ⟨line, there, inside⟩ := List.mem_flatten.1 member
    exact (bare line there).allowed c inside
  -- A line has at least its line break, so that the fuel, a step for each character, is enough for all lines.
  have enough : lines.length < lines.flatten.length + 1 := by
    rw [Nat.lt_succ_iff, List.length_flatten]
    refine (List.length_map List.length).symm.trans_le (List.length_le_sum_of_one_le _ fun n member => ?_)
    obtain ⟨line, there, rfl⟩ := List.mem_map.1 member
    exact List.length_pos_iff.2 (bare line there).ne_nil
  obtain ⟨c, spent, passed⟩ := toToken_lines (l := start lines.flatten) bare rfl rfl rfl enough
  have read : readAll (lines.flatten.length + 2) (start lines.flatten) =
      .ok { start lines.flatten with cursor := c } := by
    have same : (start lines.flatten).cursor.rest.length + 1 = lines.flatten.length + 1 := rfl
    obtain ⟨rest, index, line, column⟩ := c
    obtain rfl : rest = [] := spent
    rw [readAll, same, passed]
    rfl
  rw [tokensOf, if_pos allowed, read]
  rfl

end Lexer

/-- **A text of bare lines is null.** -/
theorem read_bare {lines : List (List Char)} (bare : ∀ line ∈ lines, IsBare line) :
    read (String.ofList lines.flatten) = .ok .null := by
  rw [read, Node.ofText, String.toList_ofList, Lexer.tokensOf_bare bare]
  rfl

end VaultConsole.Yaml
