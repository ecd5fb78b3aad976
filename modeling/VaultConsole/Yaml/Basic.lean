/-!
# YAML values

The value of a YAML document: a tree without anchors. A mapping keeps its entries in the order of the
document, and a key may be any value.
-/

namespace VaultConsole

/-- The value of a YAML document. -/
inductive Yaml where
  | null
  | bool (b : Bool)
  | int (n : Int)
  /-- A floating-point number by its bits. -/
  | float (bits : UInt64)
  | string (s : String)
  | sequence (items : List Yaml)
  | mapping (entries : List (Yaml × Yaml))
  /-- A value with a tag of the document's own, which begins with `!`. -/
  | tagged (tag : String) (value : Yaml)
  deriving Repr, Inhabited, BEq

namespace Yaml

/-- Whether the value is null. -/
def isNull : Yaml → Bool
  | .null => true
  | _ => false

end Yaml

end VaultConsole
