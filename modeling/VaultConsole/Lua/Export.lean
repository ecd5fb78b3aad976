import VaultConsole.Lua.Heap
import VaultConsole.Script.Value
import VaultConsole.Text.Utf8

/-!
# Values that leave a session

A value becomes plain data: strings are read as text with bad bytes replaced, a table becomes an array if its
keys are exactly 1 to n, and else an object. Tables that are nested too deeply, functions and the like are
told by the name of their type.
-/

namespace VaultConsole.Lua

/-- The key of an object entry for a key of a table. -/
def exportKey : Value → String
  | .string s => Text.Utf8.lossy s
  | .int n => toString n.toInt
  | .float b => Decimal.FloatText.plain.render b
  | .bool b => if b then "true" else "false"
  | v => v.kind

/-- Whether a key is an integer from 1 to `n`. -/
def isItemKey (n : Nat) : Value → Bool
  | .int i => 1 ≤ i.toInt && i.toInt ≤ n
  | _ => false

/-- Whether the entries of a table, whose length is reported as `n`, are the items of a sequence. -/
def isSequence (n : Nat) (entries : List (Value × α)) : Bool :=
  n > 0 && entries.length == n && entries.all fun e => isItemKey n e.1

/-- The items of a sequence of length `n`, each at the place of its key. -/
def sequenceItems (n : Nat) (entries : List (Value × ScriptValue)) : List ScriptValue :=
  (entries.foldl (fun items (k, v) =>
    match k with
    | .int i => items.setIfInBounds (i.toInt - 1).toNat v
    | _ => items) (Array.replicate n ScriptValue.nil)).toList

/-- The data of a table with a reported length and entries in the order of traversal. -/
def exportEntries (n : Nat) (entries : List (Value × ScriptValue)) : ScriptValue :=
  if isSequence n entries then .array (sequenceItems n entries)
  else .object (ScriptValue.sortEntries (entries.map fun (k, v) => (exportKey k, v)))

/-- How the tables of a heap show themselves: their entries in the order of traversal, and the lengths that
they report. -/
structure View where
  entries : Nat → List (Value × Value)
  length : Nat → Nat

namespace View

/-- The data of a value; tables are opened up to a nesting of `levels`. -/
def exportWithin (w : View) : Nat → Value → ScriptValue
  | _, .nil => .nil
  | _, .bool b => .boolean b
  | _, .int n => .integer n.toInt
  | _, .float b => .number b
  | _, .string s => .string (Text.Utf8.lossy s)
  | levels + 1, .table r =>
    exportEntries (w.length r) ((w.entries r).map fun (k, v) => (k, exportWithin w levels v))
  | _, v => .opaqueType v.kind

/-- The data of a value. -/
def exportValue (w : View) (v : Value) : ScriptValue := w.exportWithin ScriptValue.maxDepth v

end View

namespace Heap

/-- How the tables of a heap show themselves here. -/
def view (h : Heap) : View := ⟨fun r => (h.table r).toList, fun r => (h.table r).border.1⟩

/-- The data of a value. -/
def exportValue (h : Heap) (v : Value) : ScriptValue := h.view.exportValue v

end Heap

end VaultConsole.Lua
