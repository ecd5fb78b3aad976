import Mathlib.Data.String.Basic
import VaultConsole.Proofs.Utf8
import VaultConsole.Text.Slice

/-!
# Parts of a text

A text that is put together from parts has them at the places that the bytes of the parts add up to
(`slice?_append`). In particular its beginning and its end are cut out of it by the bytes of the beginning
(`slice?_left`, `slice?_right`).
-/

namespace VaultConsole.Text

theorem byteLength_append (cs ds : List Char) : byteLength (cs ++ ds) = byteLength cs + byteLength ds := by
  rw [byteLength, String.ofList_append, String.utf8ByteSize_append]
  rfl

theorem byteLength_toList (s : String) : byteLength s.toList = s.utf8ByteSize := by
  rw [byteLength, String.ofList_toList]

/-- A text has as many bytes as its characters are written as. -/
theorem length_encode (s : String) : (Utf8.encode s.toList).length = s.utf8ByteSize := by
  rw [← Utf8.toList_toUTF8, toList_eq, Array.length_toList]
  rfl

/-- What stands between two parts of a text is found by the numbers of bytes. -/
theorem slice?_append (before part after : List Char) :
    slice? (String.ofList (before ++ part ++ after)) (byteLength before) (byteLength before + byteLength part) =
      some (String.ofList part) := by
  have length : ∀ cs : List Char, byteLength cs = String.utf8Len cs := String.utf8ByteSize_ofList
  have start : (⟨byteLength before⟩ : String.Pos.Raw).IsValid (String.ofList (before ++ part ++ after)) := by
    rw [String.Pos.Raw.isValid_iff_exists_append]
    refine ⟨String.ofList before, String.ofList (part ++ after), ?_, rfl⟩
    rw [← String.ofList_append, List.append_assoc]
  have stop : (⟨byteLength before + byteLength part⟩ : String.Pos.Raw).IsValid
      (String.ofList (before ++ part ++ after)) := by
    rw [String.Pos.Raw.isValid_iff_exists_append]
    refine ⟨String.ofList (before ++ part), String.ofList after, String.ofList_append, ?_⟩
    rw [String.rawEndPos_ofList, String.utf8Len_append, length, length]
  rw [slice?, if_pos ⟨Nat.le_add_right _ _, start, stop⟩, length, length, String.extract_of_valid]

/-- The beginning of a text is cut out of it. -/
theorem slice?_left (before after : String) :
    slice? (before ++ after) 0 before.utf8ByteSize = some before := by
  have cut := slice?_append [] before.toList after.toList
  rw [List.nil_append, byteLength_toList, show byteLength [] = 0 from rfl, Nat.zero_add] at cut
  simpa using cut

/-- The end of a text is cut out of it. -/
theorem slice?_right (before after : String) :
    slice? (before ++ after) before.utf8ByteSize (before ++ after).utf8ByteSize = some after := by
  have cut := slice?_append before.toList after.toList []
  rw [List.append_nil, byteLength_toList, byteLength_toList, ← String.utf8ByteSize_append] at cut
  simpa using cut

end VaultConsole.Text
