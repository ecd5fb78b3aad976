import Mathlib.Data.List.TakeWhile
import Mathlib.Order.Bounds.Basic
import VaultConsole.Proofs.Paths
import VaultConsole.Proofs.Slices

/-!
# The parts of a path

The name of a document is what follows the last `/` of its path (`Path.exists_front`), and the name of a
markdown document is its basename and the ending (`Document.name_of_isMarkdown`). Neither a name nor a basename
has a `/` in it, so the path of a document inside a folder differs from every basename.

A name splits at the last byte that is a point, its first byte apart (`Document.SplitsAt`, `Document.innerPoints`).
`Document.path_parts` says what the parts are, and that all of them are cut out at places between characters.
-/

namespace VaultConsole

namespace Path

/-- The last segment of a path has no separator. -/
theorem notMem_lastSegment (path : List Char) : '/' ∉ lastSegment path := by
  intro member
  have plain := List.mem_takeWhile_imp (List.mem_reverse.1 member)
  exact absurd plain (by decide)

/-- Before the last segment of a path stands nothing, or something that ends in a separator. -/
theorem exists_front (path : List Char) :
    ∃ front, path = front ++ lastSegment path ∧ (front = [] ∨ front.getLast? = some '/') := by
  refine ⟨(path.reverse.dropWhile (· != '/')).reverse, ?_, ?_⟩
  · rw [lastSegment, ← List.reverse_append, List.takeWhile_append_dropWhile, List.reverse_reverse]
  · rw [List.reverse_eq_nil_iff, List.getLast?_reverse]
    have first := List.head?_dropWhile_not (· != '/') path.reverse
    cases rest : path.reverse.dropWhile (· != '/') with
    | nil => exact .inl rfl
    | cons c cs =>
      rw [rest] at first
      exact .inr (congrArg some (by simpa using first))

/-- A path without a separator is its own last segment. -/
theorem lastSegment_of_notMem {path : List Char} (single : '/' ∉ path) : lastSegment path = path := by
  obtain ⟨front, split, whole | last⟩ := exists_front path
  · rw [whole, List.nil_append] at split
    exact split.symm
  · rw [split, List.mem_append, not_or] at single
    exact absurd (List.mem_of_getLast? last) single.1

end Path

namespace Document

variable {d : Document}

theorem toList_name (d : Document) : d.name.toList = Path.lastSegment d.path.toList := String.toList_ofList

/-- A document whose path has no separator has its path as its name. -/
theorem name_of_notMem (single : '/' ∉ d.path.toList) : d.name = d.path := by
  rw [← String.toList_inj, toList_name, Path.lastSegment_of_notMem single]

/-- What a name splits into, with the point between, is the name again; or the name is all basename, and no point
is behind its first character. -/
theorem name_cases (d : Document) :
    ('.' ∉ d.name.toList.tail ∧ d.basename = d.name ∧ d.extension = "") ∨
      (d.name = d.basename ++ "." ++ d.extension ∧ d.basename ≠ "" ∧ '.' ∉ d.extension.toList) := by
  obtain noPoints | ⟨stem, extension, front, noPoint, split⟩ := FileName.point_cases d.name.toList
  · refine .inl ⟨noPoints, ?_⟩
    rw [basename, Document.extension, Path.splitName_of_notMem noPoints]
    dsimp only
    exact ⟨String.ofList_toList, String.ofList_nil⟩
  · refine .inr ?_
    have parts : Path.splitName d.name.toList = (stem, extension) := by
      rw [split, Path.splitName_append front noPoint]
    refine ⟨?_, ?_, ?_⟩
    · rw [← String.toList_inj, basename, Document.extension, parts]
      simp [split]
    · rw [basename, parts, ← String.toList_inj.ne, String.toList_ofList]
      exact front
    · rw [Document.extension, parts, String.toList_ofList]
      exact noPoint

/-- A name that ends in a point and something without points, after something else, has that extension. -/
theorem extension_eq_iff {extension : String} (filled : extension ≠ "") (noPoint : '.' ∉ extension.toList) :
    d.extension = extension ↔ ∃ stem ≠ "", d.name = stem ++ "." ++ extension := by
  constructor
  · rintro rfl
    obtain ⟨-, -, empty⟩ | ⟨split, front, -⟩ := d.name_cases
    · exact absurd empty filled
    · exact ⟨d.basename, front, split⟩
  · rintro ⟨stem, front, split⟩
    have characters : d.name.toList = stem.toList ++ '.' :: extension.toList := by
      rw [split, String.toList_append, String.toList_append, List.append_assoc]
      rfl
    have front : stem.toList ≠ [] := by
      rw [← String.toList_empty]
      exact String.toList_inj.ne.2 front
    rw [Document.extension, characters, Path.splitName_append front noPoint]
    exact String.ofList_toList

/-- The name of a markdown document is its basename and the ending. -/
theorem name_of_isMarkdown (markdown : d.isMarkdown) :
    d.name = d.basename ++ "." ++ markdownExtension := by
  have extension : d.extension = markdownExtension := beq_iff_eq.1 markdown
  obtain ⟨-, -, empty⟩ | ⟨split, -, -⟩ := d.name_cases
  · rw [empty] at extension
    exact absurd extension (by decide)
  · rw [← extension]
    exact split

theorem notMem_name (d : Document) : '/' ∉ d.name.toList := by
  rw [toList_name]
  exact Path.notMem_lastSegment d.path.toList

/-- What is in a part of a name is in the name. -/
theorem mem_name {c : Char} (member : c ∈ d.basename.toList ∨ c ∈ d.extension.toList) : c ∈ d.name.toList := by
  obtain ⟨-, whole, empty⟩ | ⟨split, -, -⟩ := d.name_cases
  · rw [whole, empty] at member
    exact member.resolve_right List.not_mem_nil
  · rw [split, String.toList_append, String.toList_append, List.mem_append, List.mem_append]
    exact member.imp_left .inl

/-- A basename has no separator. -/
theorem notMem_basename (d : Document) : '/' ∉ d.basename.toList :=
  fun member => d.notMem_name (mem_name (.inl member))

/-- The path of a document inside a folder is the basename of none. -/
theorem basename_ne_of_mem {path : String} (inside : '/' ∈ path.toList) (d : Document) : d.basename ≠ path := by
  rintro rfl
  exact d.notMem_basename inside

/-! ## Places of the parts -/

/-- The bytes of a name, other than the first one, at which a point stands. -/
def innerPoints (name : String) : Set Nat := {i | 0 < i ∧ name.toUTF8.toList[i]? = some FileName.point}

theorem innerPoints_eq_empty {name : String} (noPoint : '.' ∉ name.toList.tail) : innerPoints name = ∅ := by
  refine Set.eq_empty_of_forall_notMem ?_
  rintro i ⟨positive, here⟩
  obtain ⟨i, rfl⟩ := Nat.exists_eq_succ_of_ne_zero positive.ne'
  have behind : (FileName.ofChars name.toList).tail[i]? = some FileName.point := by
    rw [List.getElem?_tail, ← here, Text.Utf8.toList_toUTF8]
    rfl
  exact FileName.point_notMem_tail noPoint (List.mem_of_getElem? behind)

/-- The last point of a name stands behind the bytes of what is before it. -/
theorem isGreatest_innerPoints {stem extension : String} (front : stem ≠ "") (noPoint : '.' ∉ extension.toList) :
    IsGreatest (innerPoints (stem ++ "." ++ extension)) stem.utf8ByteSize := by
  have bytes : (stem ++ "." ++ extension).toUTF8.toList =
      Text.Utf8.encode stem.toList ++ FileName.point :: FileName.ofChars extension.toList := by
    rw [Text.Utf8.toList_toUTF8, String.toList_append, String.toList_append, List.append_assoc]
    exact Path.ofChars_append stem.toList ('.' :: extension.toList)
  have length : (Text.Utf8.encode stem.toList).length = stem.utf8ByteSize := Text.length_encode stem
  constructor
  · have positive : 0 < stem.utf8ByteSize :=
      Nat.pos_of_ne_zero (mt String.utf8ByteSize_eq_zero_iff.1 front)
    refine ⟨positive, ?_⟩
    rw [bytes, ← length, List.getElem?_append_right (Nat.le_refl _), Nat.sub_self]
    rfl
  · rintro j ⟨-, here⟩
    by_contra later
    -- The byte would be one of the extension, and that has no points.
    obtain ⟨k, rfl⟩ := Nat.exists_eq_add_of_lt (Nat.lt_of_not_le later)
    rw [bytes, ← length, List.getElem?_append_right (by omega)] at here
    have among : (FileName.ofChars extension.toList)[k]? = some FileName.point := by
      rw [← here, show _ + k + 1 - (Text.Utf8.encode stem.toList).length = k + 1 by omega, List.getElem?_cons_succ]
    exact FileName.point_notMem noPoint (List.mem_of_getElem? among)

/-- The name of a document splits at a byte: the basename is what is before it, which is something, and the
extension is what is behind it, which has no points. Both are cut out at places between characters. -/
structure SplitsAt (d : Document) (i : Nat) : Prop where
  name_eq : d.name = d.basename ++ "." ++ d.extension
  basename_ne : d.basename ≠ ""
  notMem_extension : '.' ∉ d.extension.toList
  slice_basename : Text.slice? d.name 0 i = some d.basename
  slice_extension : Text.slice? d.name (i + 1) d.name.utf8ByteSize = some d.extension

/-- A name splits at its last point, unless there is none behind its first byte. -/
theorem splits_or_whole (d : Document) :
    (∃ i, IsGreatest (innerPoints d.name) i ∧ d.SplitsAt i) ∨
      innerPoints d.name = ∅ ∧ d.basename = d.name ∧ d.extension = "" := by
  obtain ⟨noPoint', whole⟩ | ⟨split, front, noPoint⟩ := d.name_cases
  · exact .inr ⟨innerPoints_eq_empty noPoint', whole⟩
  · have greatest := isGreatest_innerPoints front noPoint
    have left := Text.slice?_left d.basename ("." ++ d.extension)
    have right := Text.slice?_right (d.basename ++ ".") d.extension
    rw [← String.append_assoc] at left
    rw [String.utf8ByteSize_append] at right
    rw [← split] at greatest left right
    exact .inl ⟨_, greatest, split, front, noPoint, left, right⟩

/-- A name is what is behind the last separator of a path, and is cut out of it at a place between characters. -/
theorem exists_above (d : Document) :
    ∃ above : String, d.path = above ++ d.name ∧ (above = "" ∨ above.toList.getLast? = some '/') ∧
      Text.slice? d.path above.utf8ByteSize d.path.utf8ByteSize = some d.name := by
  obtain ⟨front, split, ends⟩ := Path.exists_front d.path.toList
  have whole : d.path = String.ofList front ++ d.name := by
    rw [← String.toList_inj, String.toList_append, String.toList_ofList, toList_name]
    exact split
  refine ⟨String.ofList front, whole, ?_, ?_⟩
  · rw [String.toList_ofList]
    exact ends.imp_left fun same => by rw [same]
  · have right := Text.slice?_right (String.ofList front) d.name
    rw [← whole] at right
    exact right

/-- **The parts of a path.** A path is something that is empty or ends in a separator, and then the name, which has
no separator. If a point stands behind the first byte of the name, the name is the basename, the last such point and
the extension, and otherwise the name is all basename. All of these are cut out at places between characters, no part
has a separator, and only an empty name has an empty basename. A document has the extension of markdown just if its
name is something and the ending. -/
theorem path_parts (d : Document) :
    (∃ above : String, d.path = above ++ d.name ∧ (above = "" ∨ above.toList.getLast? = some '/') ∧
      Text.slice? d.path above.utf8ByteSize d.path.utf8ByteSize = some d.name) ∧
    '/' ∉ d.name.toList ∧
    ((∃ i, IsGreatest (innerPoints d.name) i ∧ d.SplitsAt i) ∨
      innerPoints d.name = ∅ ∧ d.basename = d.name ∧ d.extension = "") ∧
    '/' ∉ d.basename.toList ∧ '/' ∉ d.extension.toList ∧
    (d.basename = "" → d.name = "") ∧
    (d.extension = "md" ↔ ∃ stem ≠ "", d.name = stem ++ ".md") := by
  refine ⟨d.exists_above, d.notMem_name, d.splits_or_whole, d.notMem_basename, ?_, ?_, ?_⟩
  · exact fun member => d.notMem_name (mem_name (.inr member))
  · intro empty
    obtain ⟨-, whole, -⟩ | ⟨-, front, -⟩ := d.name_cases
    · rw [← whole]
      exact empty
    · exact absurd empty front
  · have ending : ∀ stem : String, stem ++ "." ++ "md" = stem ++ ".md" := fun stem => String.append_assoc
    rw [extension_eq_iff (by decide) (by decide)]
    simp only [ending]

/-- The last point counts, and a point that begins a name does not. -/
example : Descriptor.ofDocument ⟨"né/.→.v2.md"⟩ = ⟨"né/.→.v2.md", ".→.v2.md", ".→.v2", "md", none⟩ ∧
    Descriptor.ofDocument ⟨"né/.md"⟩ = ⟨"né/.md", ".md", ".md", "", none⟩ := by
  decide

end Document

end VaultConsole
