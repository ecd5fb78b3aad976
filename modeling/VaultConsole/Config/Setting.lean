/-!
# Settings

What a configuration file holds, whatever its format: texts, natural numbers, lists and tables. Everything
that no part of a configuration can be is told apart no further.
-/

namespace VaultConsole

/-- A value in a configuration file. -/
inductive Setting where
  | nothing
  | text (s : String)
  | natural (n : Nat)
  | list (items : List Setting)
  /-- Entries in order; a key that is no text has none. -/
  | table (entries : List (Option String × Setting))
  /-- A value that no part of a configuration can be. -/
  | other
  deriving Inhabited, Repr

namespace Setting

/-- How a format gives values. -/
structure Dialect where
  /-- Whether a list that stands for a record has no items beyond the fields of the record. -/
  closedLists : Bool
  /-- Whether a value stands for having no content. -/
  isUnit : Setting → Bool

/-- The fields of a record, in order: those that are given, each at most once. A record is a table, or a list
of the values of its first fields. -/
def fields? (d : Dialect) (names : List String) : Setting → Option (List (Option Setting))
  | .table entries =>
    if entries.any (·.1.isNone) then none
    else names.mapM fun name =>
      match entries.filter (·.1 == some name) with
      | [] => some none
      | [(_, v)] => some (some v)
      | _ => none
  | .list items =>
    if d.closedLists && names.length < items.length then none
    else some ((List.range names.length).map fun i => items[i]?)
  | _ => none

/-- The text that a setting is. -/
def text? : Setting → Option String
  | .text s => some s
  | _ => none

/-- The name of a case of an enumeration: a text, or a table with the name as its one key and no
content. -/
def case? (d : Dialect) : Setting → Option String
  | .text s => some s
  | .table [(key, content)] => if d.isUnit content then key else none
  | _ => none

end Setting

end VaultConsole
