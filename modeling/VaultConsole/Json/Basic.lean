/-!
# JSON trees

A number is kept as its token, so that a tree tells apart numbers that are written differently.
-/

namespace VaultConsole

/-- A JSON value. -/
inductive Json where
  | null
  | bool (b : Bool)
  | number (token : String)
  | string (s : String)
  | array (items : List Json)
  | object (entries : List (String × Json))
  deriving Repr, Inhabited, BEq

end VaultConsole
