import Mathlib.Data.List.Forall2
import VaultConsole.Proofs.Paths
import VaultConsole.Text.Lines

/-!
# Lines of an input

An input is read line by line. Its lines are its pieces between newlines (`linesBy`), and what is read of one of them
is its text but for blank characters around it, or a fault if the bytes are no text (`lines_standFor`). The lines of
a text are the bytes of the lines of its characters (`linesBy_encode`).
-/

namespace VaultConsole.Text

/-! ## Pieces between separators -/

section Sequences

variable {α : Type} [DecidableEq α] {separator : α}

/-- The pieces of a sequence between separators, but for the last if it is empty. -/
def linesBy (separator : α) (as : List α) : List (List α) :=
  let parts := pieces separator as
  if parts.getLast? = some [] then parts.dropLast else parts

theorem linesBy_of_notMem {as : List α} (single : separator ∉ as) :
    linesBy separator as = if as = [] then [] else [as] := by
  simp only [linesBy, pieces_of_notMem single, List.getLast?_singleton, Option.some.injEq]
  rfl

theorem linesBy_append_cons {as : List α} (single : separator ∉ as) (rest : List α) :
    linesBy separator (as ++ separator :: rest) = as :: linesBy separator rest := by
  simp only [linesBy, pieces_append_cons single]
  obtain ⟨part, parts, later⟩ := List.exists_cons_of_ne_nil (pieces_ne_nil separator rest)
  rw [later, List.getLast?_cons_cons, List.dropLast_cons_cons]
  split
  · rfl
  · rfl

/-- What holds of a line alone, and of a line before what it holds of, holds of every sequence. -/
theorem line_induction (separator : α) {motive : List α → Prop} (alone : ∀ as, separator ∉ as → motive as)
    (before : ∀ as rest, separator ∉ as → motive rest → motive (as ++ separator :: rest)) (as : List α) :
    motive as := by
  by_cases more : separator ∈ as
  · obtain ⟨first, rest, rfl, single⟩ := List.eq_append_cons_of_mem more
    exact before first rest single (line_induction separator alone before rest)
  · exact alone as more
termination_by as.length
decreasing_by
  subst_vars
  rw [List.length_append, List.length_cons]
  omega

end Sequences

/-! ## Lines of bytes -/

theorem linesAfter_append_cons {bs : List UInt8} (single : newline ∉ bs) (seen rest : List UInt8) :
    linesAfter seen (bs ++ newline :: rest) = (seen.reverse ++ bs ++ [newline]) :: linesAfter [] rest := by
  induction bs generalizing seen with
  | nil => simp [linesAfter]
  | cons b bs ih =>
    rw [List.mem_cons, not_or] at single
    have differs : (b == newline) = false := beq_eq_false_iff_ne.2 fun same => single.1 same.symm
    rw [List.cons_append, linesAfter, if_neg (by simp [differs]), ih single.2]
    simp

theorem linesAfter_of_notMem {bs : List UInt8} (single : newline ∉ bs) (seen : List UInt8) :
    linesAfter seen bs = if seen.reverse ++ bs = [] then [] else [seen.reverse ++ bs] := by
  induction bs generalizing seen with
  | nil => simp [linesAfter]
  | cons b bs ih =>
    rw [List.mem_cons, not_or] at single
    have differs : (b == newline) = false := beq_eq_false_iff_ne.2 fun same => single.1 same.symm
    rw [linesAfter, if_neg (by simp [differs]), ih single.2]
    simp

/-! ## What is read of a line -/

/-- A line that was read is a text, but for blank characters around it. -/
def Reads (line : Except Utf8.Fault String) (cs : List Char) : Prop :=
  ∃ text, line = .ok text ∧ trim text = trim (String.ofList cs)

theorem lineText_encode (cs : List Char) :
    lineText (Utf8.encode cs) = .ok (String.ofList (dropNewline cs)) := by
  rw [lineText, Utf8.decodeOnto_encode]
  rfl

/-- The carriage return before a newline does not matter, since it is blank. -/
theorem reads_newline (cs : List Char) : Reads (lineText (Utf8.encode (cs ++ ['\n']))) cs := by
  refine ⟨_, lineText_encode _, ?_⟩
  rw [dropNewline, List.reverse_append]
  -- One carriage return may go with the newline; if it does not, it is trimmed.
  cases returned : cs.reverse with
  | nil =>
    obtain rfl := List.reverse_eq_nil_iff.1 returned
    rfl
  | cons c ds =>
    have split : cs = ds.reverse ++ [c] := by
      rw [← List.reverse_cons, ← returned, List.reverse_reverse]
    by_cases carriage : c = '\r'
    · subst carriage
      rw [split]
      exact (trim_append_blank (by decide) _).symm
    · have kept : dropNewline (cs ++ ['\n']) = (c :: ds).reverse := by
        rw [dropNewline, List.reverse_append, returned]
        simp only [List.reverse_singleton, List.singleton_append]
        split
        · rename_i same
          cases same
          exact absurd rfl carriage
        · rename_i same
          cases same
          rfl
        · rename_i otherwise
          exact absurd rfl (otherwise _)
      rw [dropNewline, List.reverse_append, returned] at kept
      rw [kept, List.reverse_cons, ← split]

theorem reads_end {cs : List Char} (single : '\n' ∉ cs) : Reads (lineText (Utf8.encode cs)) cs := by
  refine ⟨_, lineText_encode _, ?_⟩
  have kept : dropNewline cs = cs := by
    unfold dropNewline
    split
    · rename_i ends
      exact absurd (List.mem_reverse.1 (ends ▸ List.mem_cons_self)) single
    · rename_i ends
      exact absurd (List.mem_reverse.1 (ends ▸ List.mem_cons_self)) single
    · rfl
  rw [kept]

/-- A line that was read stands for bytes without their newline: it is their text, or they are no text and it
is a fault. -/
def StandsFor (line : Except Utf8.Fault String) (bs : List UInt8) : Prop :=
  (∃ cs, Utf8.encode cs = bs ∧ Reads line cs) ∨ ((∀ cs, Utf8.encode cs ≠ bs) ∧ ∃ fault, line = .error fault)

/-- What is read of the bytes of a text is that text, but for blank characters around it. -/
theorem StandsFor.read {line : Except Utf8.Fault String} {bs : List UInt8} (stands : StandsFor line bs)
    {text : String} (spelled : text.toUTF8.toList = bs) : ∃ read, line = .ok read ∧ trim read = trim text := by
  rw [Utf8.toList_toUTF8] at spelled
  obtain ⟨cs, bytes, read, rfl, same⟩ | ⟨noText, -⟩ := stands
  · rw [FileName.ofChars_injective (bytes.trans spelled.symm), String.ofList_toList] at same
    exact ⟨read, rfl, same⟩
  · exact absurd spelled (noText _)

theorem StandsFor.fault {line : Except Utf8.Fault String} {bs : List UInt8} (stands : StandsFor line bs)
    (noText : ∀ text : String, text.toUTF8.toList ≠ bs) : ∃ fault, line = .error fault := by
  obtain ⟨cs, bytes, -⟩ | ⟨-, fault⟩ := stands
  · refine absurd ?_ (noText (String.ofList cs))
    rwa [Utf8.toList_toUTF8, String.toList_ofList]
  · exact fault

/-- The fault of a line whose bytes are not those of any text. -/
theorem lineText_fault {bs : List UInt8} (noText : ∀ cs, Utf8.encode cs ≠ bs) :
    ∃ fault, lineText bs = .error fault := by
  cases read : Utf8.decodeOnto [] 0 bs with
  | error fault =>
    refine ⟨fault, ?_⟩
    rw [lineText, read]
    rfl
  | ok cs => exact absurd (Utf8.decodeOnto_eq_ok_iff.1 read) (noText cs)

/-- The bytes of a text are read without a fault. -/
theorem noText_of_fault {bs : List UInt8} {fault : Utf8.Fault} (read : Utf8.decodeOnto [] 0 bs = .error fault)
    (text : String) : text.toUTF8.toList ≠ bs := by
  intro spelled
  rw [Utf8.toList_toUTF8, ← Utf8.decodeOnto_eq_ok_iff, read] at spelled
  cases spelled

theorem encode_newline (cs : List Char) : Utf8.encode (cs ++ ['\n']) = Utf8.encode cs ++ [newline] := by
  rw [Utf8.encode, Utf8.encode, List.flatMap_append]
  rfl

/-- A text whose bytes end with a newline ends with a newline. -/
theorem exists_encode_of_newline {cs : List Char} {bs : List UInt8} (ends : Utf8.encode cs = bs ++ [newline]) :
    ∃ ds, Utf8.encode ds = bs := by
  obtain rfl | ⟨ds, c, rfl⟩ := List.eq_nil_or_concat cs
  · exact absurd ends.symm (by simp [Utf8.encode])
  · -- The last byte is one of the last character, and only a newline has that byte.
    have last : newline ∈ String.utf8EncodeChar c := by
      have bytes : Utf8.encode (ds ++ [c]) = Utf8.encode ds ++ String.utf8EncodeChar c := by
        simp [Utf8.encode]
      rw [List.concat_eq_append, bytes] at ends
      have same := congrArg List.getLast? ends
      rw [List.getLast?_append_of_ne_nil _ String.utf8EncodeChar_ne_nil, List.getLast?_concat] at same
      exact List.mem_of_getLast? same
    obtain rfl : c = '\n' := Char.toNat_inj.1 (FileName.eq_of_mem_utf8EncodeChar (by decide) last)
    rw [List.concat_eq_append, encode_newline] at ends
    exact ⟨ds, List.append_cancel_right ends⟩

theorem standsFor_newline (bs : List UInt8) : StandsFor (lineText (bs ++ [newline])) bs := by
  by_cases text : ∃ cs, Utf8.encode cs = bs
  · obtain ⟨cs, rfl⟩ := text
    rw [← encode_newline]
    exact .inl ⟨cs, rfl, reads_newline cs⟩
  · rw [not_exists] at text
    refine .inr ⟨text, lineText_fault fun cs ends => ?_⟩
    obtain ⟨ds, spelled⟩ := exists_encode_of_newline ends
    exact text ds spelled

theorem standsFor_end {bs : List UInt8} (single : newline ∉ bs) : StandsFor (lineText bs) bs := by
  by_cases text : ∃ cs, Utf8.encode cs = bs
  · obtain ⟨cs, rfl⟩ := text
    have single' : '\n' ∉ cs := fun member => single (List.mem_flatMap.2 ⟨'\n', member, List.mem_singleton.2 rfl⟩)
    exact .inl ⟨cs, rfl, reads_end single'⟩
  · rw [not_exists] at text
    exact .inr ⟨text, lineText_fault text⟩

/-- The lines that are read of bytes stand for their lines. -/
theorem lines_standFor (bytes : List UInt8) :
    List.Forall₂ StandsFor ((lines bytes).map lineText) (linesBy newline bytes) := by
  induction bytes using line_induction newline with
  | alone bs single =>
    rw [linesBy_of_notMem single, lines, linesAfter_of_notMem single, List.reverse_nil, List.nil_append]
    split
    · exact .nil
    · exact .cons (standsFor_end single) .nil
  | before bs rest single ih =>
    rw [linesBy_append_cons single, lines, linesAfter_append_cons single, List.reverse_nil, List.nil_append]
    exact .cons (standsFor_newline bs) ih

/-- The lines of encoded characters are the encoded lines. -/
theorem linesBy_encode (cs : List Char) :
    linesBy newline (Utf8.encode cs) = (linesBy '\n' cs).map Utf8.encode := by
  induction cs using line_induction '\n' with
  | alone cs single =>
    have single' : newline ∉ Utf8.encode cs := FileName.byte_notMem (by decide) (by decide) single
    have empty : Utf8.encode cs = [] ↔ cs = [] := FileName.ofChars_eq_nil
    rw [linesBy_of_notMem single, linesBy_of_notMem single', if_congr empty rfl rfl]
    split
    · rfl
    · rfl
  | before first rest single ih =>
    have bytes : Utf8.encode (first ++ '\n' :: rest) = Utf8.encode first ++ newline :: Utf8.encode rest := by
      rw [Utf8.encode, List.flatMap_append, List.flatMap_cons]
      rfl
    have single' : newline ∉ Utf8.encode first := FileName.byte_notMem (by decide) (by decide) single
    rw [bytes, linesBy_append_cons single', linesBy_append_cons single, ih, List.map_cons]

end VaultConsole.Text
