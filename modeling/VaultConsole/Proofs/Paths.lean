import VaultConsole.Proofs.Names

/-!
# Paths as text

A path is looked at as characters by what describes documents, and as bytes by what follows it. The two agree:
a byte of the ASCII range stands only for its character (`eq_of_mem_utf8EncodeChar`), so cutting a path at
separators gives the same segments (`names_eq`), and a document has the extension of markdown exactly if the
last of its names has (`isMarkdown_eq_lists`).
-/

namespace VaultConsole

namespace FileName

/-- A byte of the ASCII range comes only from the character that it stands for. -/
theorem eq_of_mem_utf8EncodeChar {c : Char} {b : UInt8} (ascii : b.toNat < 128)
    (member : b ∈ String.utf8EncodeChar c) : c.toNat = b.toNat := by
  have high : ∀ n, 128 ≤ n → n < 256 → b ≠ UInt8.ofNat n := by
    rintro n low up rfl
    rw [UInt8.toNat_ofNat'] at ascii
    omega
  unfold String.utf8EncodeChar at member
  simp only [] at member
  split at member
  · rename_i single
    have value : c.val.toNat = c.toNat := rfl
    rw [List.mem_singleton.1 member, UInt8.toNat_ofNat']
    omega
  · -- Every byte of a longer character is outside of the range.
    exfalso
    split at member
    · simp only [List.mem_cons, List.not_mem_nil, or_false] at member
      obtain first | second := member
      · exact high _ (by omega) (by omega) first
      · exact high _ (by omega) (by omega) second
    · split at member
      · simp only [List.mem_cons, List.not_mem_nil, or_false] at member
        obtain first | second | third := member
        · exact high _ (by omega) (by omega) first
        · exact high _ (by omega) (by omega) second
        · exact high _ (by omega) (by omega) third
      · simp only [List.mem_cons, List.not_mem_nil, or_false] at member
        obtain first | second | third | fourth := member
        · exact high _ (by omega) (by omega) first
        · exact high _ (by omega) (by omega) second
        · exact high _ (by omega) (by omega) third
        · exact high _ (by omega) (by omega) fourth

/-- Without a character of the ASCII range, a text has no byte of it either. -/
theorem byte_notMem {c : Char} {b : UInt8} (ascii : b.toNat < 128) (stands : c.toNat = b.toNat) {cs : List Char}
    (h : c ∉ cs) : b ∉ ofChars cs := by
  intro member
  obtain ⟨d, there, byte⟩ := List.mem_flatMap.1 member
  have same : d = c := Char.toNat_inj.1 ((eq_of_mem_utf8EncodeChar ascii byte).trans stands.symm)
  exact h (same ▸ there)

theorem separator_notMem {cs : List Char} (h : '/' ∉ cs) : separator ∉ ofChars cs :=
  byte_notMem (by decide) (by decide) h

theorem point_notMem {cs : List Char} (h : '.' ∉ cs) : point ∉ ofChars cs :=
  byte_notMem (by decide) (by decide) h

/-- Texts with the same bytes are the same. -/
theorem ofChars_injective {cs cs' : List Char} (same : ofChars cs = ofChars cs') : cs = cs' :=
  Option.some.inj ((chars?_eq_some.2 rfl).symm.trans (chars?_eq_some.2 same.symm))

theorem ofChars_eq_nil {cs : List Char} : ofChars cs = [] ↔ cs = [] := by
  constructor
  · intro h
    exact ofChars_injective h
  · rintro rfl
    rfl

end FileName

namespace Text

variable {α : Type} [BEq α] [LawfulBEq α]

/-- No piece has a separator in it. -/
theorem notMem_of_mem_pieces {separator : α} {as piece : List α} (h : piece ∈ pieces separator as) :
    separator ∉ piece := by
  induction as generalizing piece with
  | nil => simp_all [pieces]
  | cons a as ih =>
    unfold pieces at h
    split at h
    · obtain rfl | later := List.mem_cons.1 h
      · exact List.not_mem_nil
      · exact ih later
    · rename_i differs
      have other : ¬ separator = a := fun same => differs (beq_iff_eq.2 same.symm)
      split at h
      · rename_i p ps split
        rw [split] at ih
        obtain rfl | later := List.mem_cons.1 h
        · rw [List.mem_cons, not_or]
          exact ⟨other, ih List.mem_cons_self⟩
        · exact ih (List.mem_cons_of_mem p later)
      · rw [List.mem_singleton.1 h, List.mem_singleton]
        exact other

/-- What is in a piece is in the whole. -/
theorem mem_of_mem_pieces {separator a : α} {as piece : List α} (h : piece ∈ pieces separator as)
    (member : a ∈ piece) : a ∈ as := by
  obtain ⟨i, here⟩ := List.mem_iff_getElem?.1 h
  have among : piece ∈ List.intersperse [separator] (pieces separator as) :=
    List.mem_iff_getElem?.2 ⟨2 * i, List.getElem?_intersperse_two_mul.trans here⟩
  rw [← intercalate_pieces separator as]
  exact List.mem_flatten.2 ⟨piece, among, member⟩

/-- A separator ends the pieces before it. -/
theorem pieces_append_separator (separator : α) (as bs : List α) :
    pieces separator (as ++ separator :: bs) = pieces separator as ++ pieces separator bs := by
  induction as with
  | nil => simp [pieces]
  | cons a as ih =>
    have some_piece := pieces_ne_nil separator as
    rw [List.cons_append, pieces, pieces, ih]
    split
    · rfl
    · cases split : pieces separator as with
      | nil => exact absurd split some_piece
      | cons p ps => rfl

/-- Without an element after the first one, nothing before the last such element is left. -/
theorem dropWhile_reverse_of_notMem {mark : α} {as : List α} (h : mark ∉ as.tail) :
    as.reverse.dropWhile (· != mark) = [] ∨ as.reverse.dropWhile (· != mark) = [mark] := by
  cases as with
  | nil => exact .inl rfl
  | cons a rest =>
    have plain : ∀ b ∈ rest.reverse, (b != mark) = true := fun b member =>
      bne_iff_ne.2 fun same => h (same ▸ List.mem_reverse.1 member)
    rw [List.reverse_cons, List.dropWhile_append_of_pos plain]
    by_cases same : a = mark
    · exact .inr (by simp [same])
    · exact .inl (by simp [same])

end Text

namespace Path

/-- The names of a path are the segments of its bytes. -/
theorem names_eq (path : String) : names path = segmentsOf path.toUTF8.toList := by
  have parts : ∀ part ∈ (segments path.toList).map FileName.ofChars, separator ∉ part := by
    intro part member
    obtain ⟨segment, there, rfl⟩ := List.mem_map.1 member
    exact FileName.separator_notMem (Text.notMem_of_mem_pieces there)
  have filled : (segments path.toList).map FileName.ofChars ≠ [] := by
    rw [ne_eq, List.map_eq_nil_iff]
    exact Text.pieces_ne_nil _ _
  have bytes : path.toUTF8.toList = joined (names path) := by
    rw [Text.Utf8.toList_toUTF8, ← Text.intercalate_pieces '/' path.toList]
    exact ofChars_intercalate _
  rw [segmentsOf, bytes]
  exact (Text.pieces_intercalate filled parts).symm

/-- Names are found again in the path that they spell. -/
theorem names_of_joined {path : String} {parts : List FileName} (filled : parts ≠ [])
    (h : ∀ part ∈ parts, separator ∉ part) (spelled : FileName.ofChars path.toList = joined parts) :
    names path = parts := by
  have bytes : path.toUTF8.toList = joined parts := (Text.Utf8.toList_toUTF8 path).trans spelled
  rw [names_eq, bytes]
  exact Text.pieces_intercalate filled h

/-- A path with a separator ends in what follows the last one, and another is a single segment. -/
theorem getLast?_segments (path : List Char) : (segments path).getLast? = some (lastSegment path) := by
  by_cases single : '/' ∈ path
  · -- The last separator is the first one from the end.
    obtain ⟨last, front, split, fresh⟩ := List.eq_append_cons_of_mem (List.mem_reverse.2 single)
    have path_eq : path = front.reverse ++ '/' :: last.reverse := by
      rw [← List.reverse_reverse path, split]
      simp
    have plain : ∀ c ∈ last, (c != '/') = true := fun c member =>
      bne_iff_ne.2 fun same => fresh (same ▸ member)
    have taken : lastSegment path = last.reverse := by
      rw [lastSegment, split, List.takeWhile_append_of_pos plain]
      simp
    rw [taken, path_eq, segments, Text.pieces_append_separator,
      Text.pieces_of_notMem (fun member => fresh (List.mem_reverse.1 member)), List.getLast?_append]
    rfl
  · have plain : ∀ c ∈ path.reverse, (c != '/') = true := fun c member =>
      bne_iff_ne.2 fun same => single (same ▸ List.mem_reverse.1 member)
    have taken : lastSegment path = path := by
      have all : (path.reverse ++ []).takeWhile (· != '/') = path.reverse ++ List.takeWhile (· != '/') [] :=
        List.takeWhile_append_of_pos plain
      rw [List.append_nil, List.takeWhile_nil, List.append_nil] at all
      rw [lastSegment, all, List.reverse_reverse]
    rw [segments, Text.pieces_of_notMem single, taken]
    rfl

/-! ## Extensions -/

/-- A name splits at its last point, if something is before that. -/
theorem splitName_append {stem extension : List Char} (filled : stem ≠ []) (noPoint : '.' ∉ extension) :
    splitName (stem ++ '.' :: extension) = (stem, extension) := by
  have plain : ∀ c ∈ extension.reverse, (c != '.') = true := fun c member =>
    bne_iff_ne.2 fun same => noPoint (same ▸ List.mem_reverse.1 member)
  have backwards : (stem ++ '.' :: extension).reverse = extension.reverse ++ '.' :: stem.reverse := by
    simp
  obtain ⟨c, rest, front⟩ := List.exists_cons_of_ne_nil (List.reverse_ne_nil_iff.2 filled)
  have whole : (c :: rest).reverse = stem := by rw [← front, List.reverse_reverse]
  rw [splitName, backwards, List.dropWhile_append_of_pos plain, List.takeWhile_append_of_pos plain, front]
  simp [← whole]

/-- Without a point after its first character, a name has no extension. -/
theorem splitName_of_notMem {name : List Char} (noPoint : '.' ∉ name.tail) :
    splitName name = (name, []) := by
  obtain nothing | only := Text.dropWhile_reverse_of_notMem noPoint
  · rewrite [splitName, nothing]
    rfl
  · rewrite [splitName, only]
    rfl

end Path

namespace FileName

theorem extension?_of_notMem {name : FileName} (noPoint : point ∉ name.tail) : name.extension? = none := by
  obtain nothing | only := Text.dropWhile_reverse_of_notMem noPoint
  · rewrite [extension?, nothing]
    rfl
  · rewrite [extension?, only]
    rfl

/-- A name without a point after its first character, and a name that splits at its last point. -/
theorem point_cases (name : List Char) :
    '.' ∉ name.tail ∨ ∃ stem extension, stem ≠ [] ∧ '.' ∉ extension ∧ name = stem ++ '.' :: extension := by
  by_cases inside : '.' ∈ name.tail
  · right
    obtain ⟨c, rest, rfl⟩ := List.exists_cons_of_ne_nil (List.ne_nil_of_mem (List.mem_of_mem_tail inside))
    obtain ⟨last, front, split, fresh⟩ := List.eq_append_cons_of_mem (List.mem_reverse.2 inside)
    have tail : rest = front.reverse ++ '.' :: last.reverse := by
      rw [← List.reverse_reverse rest, ← @List.tail_cons _ c rest, split]
      simp
    exact ⟨c :: front.reverse, last.reverse, List.cons_ne_nil _ _,
      fun member => fresh (List.mem_reverse.1 member), by rw [tail, List.cons_append]⟩
  · exact .inl inside

/-- Without a point after its first character, a name has none after its first byte. -/
theorem point_notMem_tail {name : List Char} (noPoint : '.' ∉ name.tail) : point ∉ (ofChars name).tail := by
  cases name with
  | nil => exact List.not_mem_nil
  | cons c name =>
    have first : point ∉ (String.utf8EncodeChar c).tail := by
      intro member
      have same : c = '.' :=
        Char.toNat_inj.1 (eq_of_mem_utf8EncodeChar (by decide) (List.mem_of_mem_tail member))
      rw [same] at member
      exact absurd member (by decide)
    rw [ofChars, List.flatMap_cons, List.tail_append_of_ne_nil String.utf8EncodeChar_ne_nil, List.mem_append,
      not_or]
    exact ⟨first, point_notMem noPoint⟩

/-- The extension of a name in bytes is that of its characters. -/
theorem extension?_ofChars {name extension : List Char} (filled : extension ≠ []) :
    (ofChars name).extension? = Option.some (ofChars extension) ↔ (Path.splitName name).2 = extension := by
  obtain noPoints | ⟨stem, ending, front, noPoint, rfl⟩ := point_cases name
  · rw [extension?_of_notMem (point_notMem_tail noPoints), Path.splitName_of_notMem noPoints]
    exact iff_of_false nofun fun same => filled same.symm
  · have bytes : ofChars (stem ++ '.' :: ending) = ofChars stem ++ point :: ofChars ending :=
      Path.ofChars_append stem ('.' :: ending)
    have found : (ofChars (stem ++ '.' :: ending)).extension? = Option.some (ofChars ending) :=
      (extension?_eq_some (point_notMem noPoint)).2 ⟨ofChars stem, mt ofChars_eq_nil.1 front, bytes⟩
    rw [found, Path.splitName_append front noPoint, Option.some.injEq]
    exact ⟨ofChars_injective, congrArg ofChars⟩

end FileName

/-- A vault lists a document for its path exactly if it lists a file for the names of the path. -/
theorem Document.isMarkdown_eq_lists (path : String) :
    (Document.mk path).isMarkdown = DirectoryVault.lists (Path.names path) := by
  have last : (Path.names path).getLast? = some (FileName.ofChars (Path.lastSegment path.toList)) := by
    rw [Path.names, List.getLast?_map, Path.getLast?_segments]
    rfl
  rw [DirectoryVault.lists, last, Option.any_some, Bool.eq_iff_iff, beq_iff_eq,
    FileName.extension?_ofChars (by decide), isMarkdown, beq_iff_eq, extension, name,
    ← String.toList_inj, String.toList_ofList, String.toList_ofList]

end VaultConsole
