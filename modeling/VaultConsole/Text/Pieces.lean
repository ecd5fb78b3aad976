/-!
# Pieces of a sequence

A sequence cut at every occurrence of a separator. There is one piece more than there are separators, and
pieces may be empty. `intercalate_pieces` says that nothing is lost.
-/

namespace VaultConsole.Text

/-- The pieces between separators. -/
def pieces [BEq α] (separator : α) : List α → List (List α)
  | [] => [[]]
  | a :: as =>
    if a == separator then [] :: pieces separator as
    else match pieces separator as with
      | p :: ps => (a :: p) :: ps
      | [] => [[a]]

theorem pieces_ne_nil [BEq α] (separator : α) (as : List α) : pieces separator as ≠ [] := by
  fun_cases pieces separator as <;> simp_all

/-- The pieces joined by separators are the sequence. -/
theorem intercalate_pieces [BEq α] [LawfulBEq α] (separator : α) (as : List α) :
    List.intercalate [separator] (pieces separator as) = as := by
  induction as with
  | nil => rfl
  | cons a as ih =>
    have some_piece := pieces_ne_nil separator as
    unfold pieces
    cases h : pieces separator as with
    | nil => exact absurd h some_piece
    | cons p ps =>
      rw [h] at ih
      by_cases same : a = separator
      · subst same
        simpa [List.intercalate, List.intersperse] using ih
      · cases ps <;> simp_all [List.intercalate, List.intersperse]

end VaultConsole.Text
