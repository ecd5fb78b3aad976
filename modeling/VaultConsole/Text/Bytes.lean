/-!
# Sequences of bytes

Equality of sequences of bytes is decided byte by byte, and `toList_eq` says which list the bytes are.
-/

namespace VaultConsole.Text

instance (priority := 2000) decidableEqBytes : DecidableEq ByteArray := ByteArray.instDecidableEq

theorem toList_loop (bs : ByteArray) (i : Nat) (read : List UInt8) :
    ByteArray.toList.loop bs i read = read.reverse ++ bs.data.toList.drop i := by
  fun_induction ByteArray.toList.loop bs i read with
  | case1 i read more ih =>
    have bound : i < bs.data.toList.length := more
    have split := List.drop_eq_getElem_cons bound
    have here : bs.get! i = bs.data.toList[i] := getElem!_pos bs.data i more
    rw [ih, split, List.reverse_cons, List.append_assoc, here]
    rfl
  | case2 i read done =>
    have past : bs.data.toList.length ≤ i := Nat.not_lt.1 done
    rw [List.drop_eq_nil_of_le past, List.append_nil]

theorem toList_eq (bs : ByteArray) : bs.toList = bs.data.toList := toList_loop bs 0 []

theorem head?_toList {bs : ByteArray} (some : 0 < bs.size) : bs.toList.head? = .some (bs.get! 0) := by
  have first : bs.get! 0 = bs.data.toList[0] := getElem!_pos bs.data 0 some
  have bound : 0 < bs.data.toList.length := some
  rw [toList_eq, first, List.head?_eq_getElem?, List.getElem?_eq_getElem bound]

/-- A sequence of bytes is made of its list. -/
theorem toByteArray_toList (bs : ByteArray) : bs.toList.toByteArray = bs := by
  rw [toList_eq]
  exact ByteArray.ext (Array.ext' List.toList_data_toByteArray)

theorem toList_toByteArray (bytes : List UInt8) : bytes.toByteArray.toList = bytes := by
  rw [toList_eq]
  exact List.toList_data_toByteArray

end VaultConsole.Text
