/-!
# TOML values

The values of a TOML document, and the statements that a document consists of. Tables keep their entries in
the order in which they came. A date or a time is known to be one, and nothing more.
-/

namespace VaultConsole

/-- A TOML value. -/
inductive Toml where
  | string (s : String)
  | integer (n : Int)
  | float (bits : UInt64)
  | boolean (b : Bool)
  /-- A date, a time, or both. -/
  | moment
  | array (items : List Toml)
  | table (entries : List (String × Toml))
  deriving Inhabited, Repr

namespace Toml

/-- A key as it is written: its parts between points. -/
abbrev Key := List String

/-- A value as it is written: keys of inline tables may have several parts, and may clash. -/
inductive Term where
  | scalar (v : Toml)
  | array (items : List Term)
  | table (entries : List (Key × Term))
  deriving Inhabited

/-- A statement of a document. -/
inductive Statement where
  /-- The assignments that follow are those of a table. -/
  | table (key : Key)
  /-- The assignments that follow are those of a further table in an array of tables. -/
  | item (key : Key)
  | assignment (key : Key) (value : Term)
  deriving Inhabited

end Toml

end VaultConsole
