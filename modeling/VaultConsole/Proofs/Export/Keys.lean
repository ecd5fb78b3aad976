import Std.Data.String.ToInt
import VaultConsole.Lua.Export
import VaultConsole.Proofs.Utf8

/-!
# The names of keys

Different integers have different names in an object, and so have different strings that are text
(`exportKey_int_inj`, `exportKey_string_inj`). An integer may have the name of a string, and bytes that are no text
may share a name.
-/

namespace VaultConsole

namespace Text.Utf8

/-- What is written is read back loosely, after what was read before. -/
theorem decodeLossyOnto_encode (cs read : List Char) :
    decodeLossyOnto read (encode cs) = read.reverse ++ cs := by
  induction cs generalizing read with
  | nil => simp [encode, decodeLossyOnto]
  | cons c cs ih =>
    obtain ⟨a, tail, bytes, first⟩ := encode_cons c cs
    rw [bytes, decodeLossyOnto, first]
    simp only [List.drop_left]
    rw [ih, List.reverse_cons, List.append_assoc]
    rfl

/-- A text is read from its bytes. -/
theorem lossy_toUTF8 (s : String) : lossy s.toUTF8 = s := by
  rw [lossy, decodeLossy, toList_toUTF8, decodeLossyOnto_encode]
  exact String.ofList_toList

end Text.Utf8

namespace Lua

theorem exportKey_int_inj {a b : Int64} : exportKey (.int a) = exportKey (.int b) ↔ a = b := by
  constructor
  · intro same
    exact Int64.toInt_inj.1 (Int.repr_injective same)
  · rintro rfl
    rfl

/-- Bytes that are text are told apart by their names. -/
theorem exportKey_string_inj {s t : ByteArray} (valid : s.IsValidUTF8) (valid' : t.IsValidUTF8) :
    exportKey (.string s) = exportKey (.string t) ↔ s = t := by
  constructor
  · intro same
    have text : String.ofByteArray s valid = String.ofByteArray t valid' := by
      rw [← Text.Utf8.lossy_toUTF8 (String.ofByteArray s valid),
        ← Text.Utf8.lossy_toUTF8 (String.ofByteArray t valid')]
      exact same
    exact congrArg String.toByteArray text
  · rintro rfl
    rfl

-- An integer and a string are not told apart.
example : exportKey (.int 1) = exportKey (.text "1") := (Text.Utf8.lossy_toUTF8 "1").symm

/-- Only integers are known to the host as such. -/
theorem exists_int_of_kind {v : Value} (kind : v.kind = "integer") : ∃ n, v = .int n := by
  cases v with
  | int n => exact ⟨n, rfl⟩
  | _ => exact absurd kind (by simp [Value.kind, Value.type, BasicType.name])

end Lua

end VaultConsole
