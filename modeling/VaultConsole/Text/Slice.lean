/-!
# Parts of a text by bytes

Places in a text are counted in bytes. A part of a text goes from one place up to another; there is no such
part if a place is inside a character or behind the end, or if the places are out of order.
-/

namespace VaultConsole.Text

/-- The number of bytes of characters. -/
def byteLength (cs : List Char) : Nat := (String.ofList cs).utf8ByteSize

/-- The part of a text from one byte up to another, if both are places between characters of it. -/
def slice? (s : String) (start stop : Nat) : Option String :=
  if start ≤ stop ∧ (⟨start⟩ : String.Pos.Raw).IsValid s ∧ (⟨stop⟩ : String.Pos.Raw).IsValid s then
    some (String.Pos.Raw.extract s ⟨start⟩ ⟨stop⟩)
  else none

end VaultConsole.Text
