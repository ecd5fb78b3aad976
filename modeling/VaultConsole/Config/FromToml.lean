import VaultConsole.Config.Setting
import VaultConsole.Toml.Document

/-!
# Settings in TOML

A document as a table of settings.
-/

namespace VaultConsole.Setting

/-- The rules of TOML: a list may have further items, and an empty table or list has no content. -/
def toml : Dialect where
  closedLists := false
  isUnit
    | .table [] => true
    | .list [] => true
    | _ => false

mutual

/-- A TOML value as a setting. -/
def ofToml : Toml → Setting
  | .string s => .text s
  | .integer n => if 0 ≤ n then .natural n.toNat else .other
  | .array items => .list (ofTomls items)
  | .table entries => .table (ofTomlEntries entries)
  | _ => .other

def ofTomls : List Toml → List Setting
  | [] => []
  | v :: vs => ofToml v :: ofTomls vs

def ofTomlEntries : List (String × Toml) → List (Option String × Setting)
  | [] => []
  | (k, v) :: es => (some k, ofToml v) :: ofTomlEntries es

end

/-- The settings of a document. -/
def readToml? (text : String) : Option Setting := (Toml.read? text).map fun es => .table (ofTomlEntries es)

end VaultConsole.Setting
