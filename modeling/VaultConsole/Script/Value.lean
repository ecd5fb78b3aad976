import VaultConsole.Decimal.Text
import VaultConsole.Json.Printer

/-!
# Values handed out of a script

What an execution returns: plain data, sequences, records with sorted keys, and the type name of what
cannot leave the session. A value is shown as text or as JSON.
-/

namespace VaultConsole

/-- A value outside any session. -/
inductive ScriptValue where
  | nil
  | boolean (b : Bool)
  | integer (n : Int)
  /-- A floating-point number by its 64 bits. -/
  | number (bits : UInt64)
  | string (s : String)
  | array (items : List ScriptValue)
  /-- Entries in strictly ascending order of their keys. -/
  | object (entries : List (String × ScriptValue))
  /-- A value that stays in the session, by the name of its type. -/
  | opaqueType (type : String)
  deriving Repr, Inhabited, BEq

namespace ScriptValue

/-- Nesting at which a table is no longer opened. -/
def maxDepth : Nat := 32

/-- Entries with one more, in order; an entry of the same key is replaced. -/
def insertEntry (key : String) (value : α) : List (String × α) → List (String × α)
  | [] => [(key, value)]
  | (k, v) :: es =>
    if key < k then (key, value) :: (k, v) :: es
    else if key == k then (key, value) :: es
    else (k, v) :: insertEntry key value es

/-- Entries sorted by key, where of equal keys the last entry stays. -/
def sortEntries (entries : List (String × α)) : List (String × α) :=
  entries.foldl (fun es e => insertEntry e.1 e.2 es) []

/-- Whether the value is nil. -/
def isNil : ScriptValue → Bool
  | .nil => true
  | _ => false

mutual

/-- The value as JSON: nil and numbers that are not finite are null, and what is opaque is the name of
its type. -/
def toJson : ScriptValue → Json
  | .nil => .null
  | .boolean b => .bool b
  | .integer n => .number (toString n)
  | .number bits =>
    match Decimal.Binary64.ofBits bits with
    | .finite _ => .number (Decimal.FloatText.json.render bits)
    | _ => .null
  | .string s => .string s
  | .array items => .array (toJsonItems items)
  | .object entries => .object (toJsonEntries entries)
  | .opaqueType type => .string type

/-- The items of an array as JSON. -/
def toJsonItems : List ScriptValue → List Json
  | [] => []
  | v :: vs => toJson v :: toJsonItems vs

/-- The entries of an object as JSON. -/
def toJsonEntries : List (String × ScriptValue) → List (String × Json)
  | [] => []
  | (k, v) :: es => (k, toJson v) :: toJsonEntries es

end

/-- The value as it is shown. -/
def display : ScriptValue → String
  | .nil => "nil"
  | .boolean b => if b then "true" else "false"
  | .integer n => toString n
  | .number bits => Decimal.FloatText.plain.render bits
  | .string s => s
  | .opaqueType type => "<" ++ type ++ ">"
  | v => v.toJson.indented

end ScriptValue

/-- What a successful execution gives: the text that it printed, or the value that it returned. -/
inductive Result where
  | output (text : String)
  | value (v : ScriptValue)
  deriving Repr, Inhabited, BEq

namespace Result

/-- The text to show; nothing for nil. -/
def render : Result → Option String
  | .output text => some text
  | .value v => if v.isNil then none else some v.display

/-- The printed text, if the result is one. -/
def output? : Result → Option String
  | .output text => some text
  | .value _ => none

/-- The result as JSON, tagged by its kind. -/
def toJson : Result → Json
  | .output text => .object [("kind", .string "output"), ("value", .string text)]
  | .value v => .object [("kind", .string "value"), ("value", v.toJson)]

end Result

end VaultConsole
