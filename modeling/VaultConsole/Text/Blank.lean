/-!
# Blank characters

The characters with the Unicode property `White_Space`, and trimming of texts by that property.
Trimming keeps every character between the first and the last that is not blank.
-/

namespace VaultConsole.Text

/-- A character with the Unicode property `White_Space`. -/
def isBlank (c : Char) : Bool :=
  let n := c.toNat
  (9 ≤ n && n ≤ 13) || n == 0x20 || n == 0x85 || n == 0xA0 || n == 0x1680
    || (0x2000 ≤ n && n ≤ 0x200A) || n == 0x2028 || n == 0x2029 || n == 0x202F
    || n == 0x205F || n == 0x3000

/-- The characters without the blank ones at the start. -/
def dropBlankStart (cs : List Char) : List Char := cs.dropWhile isBlank

/-- The characters without the blank ones at the end. -/
def dropBlankEnd (cs : List Char) : List Char := (cs.reverse.dropWhile isBlank).reverse

/-- The text without blank characters at either end. -/
def trim (s : String) : String := String.ofList (dropBlankEnd (dropBlankStart s.toList))

/-- Whether every character is blank. -/
def allBlank (s : String) : Bool := s.toList.all isBlank

/-! ## What is dropped and what is kept -/

theorem dropBlankStart_cons (c : Char) (cs : List Char) :
    dropBlankStart (c :: cs) = if isBlank c then dropBlankStart cs else c :: cs := by
  simp only [dropBlankStart, List.dropWhile_cons]

/-- Only blank characters are dropped at the start. -/
theorem dropBlankStart_split (cs : List Char) :
    ∃ pre, cs = pre ++ dropBlankStart cs ∧ ∀ c ∈ pre, isBlank c = true := by
  refine ⟨cs.takeWhile isBlank, List.takeWhile_append_dropWhile.symm, ?_⟩
  intro c member
  exact List.all_eq_true.1 List.all_takeWhile c member

theorem head_dropBlankStart {cs : List Char} {c : Char} (h : (dropBlankStart cs).head? = some c) :
    isBlank c = false := by
  induction cs with
  | nil => cases h
  | cons d ds ih =>
    rw [dropBlankStart_cons] at h
    by_cases blank : isBlank d = true
    · rw [if_pos blank] at h
      exact ih h
    · rw [if_neg blank] at h
      cases h
      simpa using blank

/-- Only blank characters are dropped at the end. -/
theorem dropBlankEnd_split (cs : List Char) :
    ∃ post, cs = dropBlankEnd cs ++ post ∧ ∀ c ∈ post, isBlank c = true := by
  obtain ⟨pre, split, blank⟩ := dropBlankStart_split cs.reverse
  refine ⟨pre.reverse, ?_, fun c member => blank c (List.mem_reverse.1 member)⟩
  have back := congrArg List.reverse split
  rw [List.reverse_reverse, List.reverse_append] at back
  exact back

theorem getLast_dropBlankEnd {cs : List Char} {c : Char} (h : (dropBlankEnd cs).getLast? = some c) :
    isBlank c = false := by
  rw [dropBlankEnd, List.getLast?_reverse] at h
  exact head_dropBlankStart h

/-- What begins a text still begins it without the blank characters at its end. -/
theorem head_dropBlankEnd {cs : List Char} {c : Char} (h : (dropBlankEnd cs).head? = some c) :
    cs.head? = some c := by
  obtain ⟨post, split, -⟩ := dropBlankEnd_split cs
  rw [split, List.head?_append, h]
  rfl

/-- A text is what trimming keeps of it between blank characters. -/
theorem trim_split (s : String) :
    ∃ pre post, s.toList = pre ++ (trim s).toList ++ post ∧ (∀ c ∈ pre, isBlank c = true) ∧
      ∀ c ∈ post, isBlank c = true := by
  obtain ⟨pre, before, blankBefore⟩ := dropBlankStart_split s.toList
  obtain ⟨post, after, blankAfter⟩ := dropBlankEnd_split (dropBlankStart s.toList)
  refine ⟨pre, post, ?_, blankBefore, blankAfter⟩
  rw [trim, String.toList_ofList, List.append_assoc, ← after]
  exact before

/-- A blank character at the end of a text does not matter once it is trimmed. -/
theorem trim_append_blank {c : Char} (blank : isBlank c = true) (cs : List Char) :
    trim (String.ofList (cs ++ [c])) = trim (String.ofList cs) := by
  have atEnd : ∀ ds : List Char, dropBlankEnd (ds ++ [c]) = dropBlankEnd ds := by
    intro ds
    simp [dropBlankEnd, blank]
  rw [trim, trim, String.toList_ofList, String.toList_ofList, dropBlankStart, List.dropWhile_append]
  split
  · rename_i allBlank
    rw [List.isEmpty_iff] at allBlank
    rw [dropBlankStart, allBlank]
    simp [blank]
  · rw [atEnd]
    rfl

/-- A trimmed text begins with no blank character. -/
theorem head_trim {s : String} {c : Char} (h : (trim s).toList.head? = some c) : isBlank c = false := by
  rw [trim, String.toList_ofList] at h
  exact head_dropBlankStart (head_dropBlankEnd h)

/-- A trimmed text ends with no blank character. -/
theorem getLast_trim {s : String} {c : Char} (h : (trim s).toList.getLast? = some c) :
    isBlank c = false := by
  rw [trim, String.toList_ofList] at h
  exact getLast_dropBlankEnd h

/-- Nothing is kept of a text just if all of it is blank. -/
theorem trim_eq_empty_iff (s : String) : trim s = "" ↔ allBlank s = true := by
  obtain ⟨pre, post, split, before, after⟩ := trim_split s
  constructor
  · intro nothing
    rw [nothing] at split
    rw [allBlank, split, List.all_eq_true]
    intro c member
    obtain member | member := List.mem_append.1 member
    · exact before c (by simpa using member)
    · exact after c member
  · intro blank
    rw [allBlank, List.all_eq_true] at blank
    cases kept : (trim s).toList with
    | nil => exact String.toList_injective kept
    | cons c cs =>
      have solid : isBlank c = false := head_trim (by rw [kept]; rfl)
      have member : c ∈ s.toList := by
        rw [split, kept]
        simp
      rw [blank c member] at solid
      cases solid

end VaultConsole.Text
