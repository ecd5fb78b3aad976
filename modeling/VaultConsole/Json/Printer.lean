import VaultConsole.Decimal.Rounded
import VaultConsole.Json.Basic

/-!
# Writing JSON

Two layouts of one grammar: compact, without any blank, and indented by two spaces, with one item or
entry on a line and empty brackets kept together. Strings escape the quote, the backslash and
the control characters below `0x20`, and nothing else.
-/

namespace VaultConsole.Json

/-- A character inside a quoted string. -/
def escape (c : Char) : List Char :=
  match c with
  | '"' => ['\\', '"']
  | '\\' => ['\\', '\\']
  | '\n' => ['\\', 'n']
  | '\r' => ['\\', 'r']
  | '\t' => ['\\', 't']
  | '\x08' => ['\\', 'b']
  | '\x0c' => ['\\', 'f']
  | c =>
    if c.toNat < 0x20 then
      ['\\', 'u', '0', '0'] ++ Decimal.Rounded.hexDigits false 2 c.toNat
    else [c]

/-- A string in quotes. -/
def quote (s : String) : List Char := '"' :: (s.toList.flatMap escape ++ ['"'])

/-- How the parts of arrays and objects are set apart. -/
structure Layout where
  /-- What stands before each item at a depth. -/
  line : Nat → List Char
  /-- What stands between a key and its value. -/
  colon : List Char

/-- No blanks at all. -/
def Layout.compact : Layout := ⟨fun _ => [], [':']⟩

/-- One item on a line, two spaces for each depth. -/
def Layout.indented : Layout := ⟨fun depth => '\n' :: List.replicate (2 * depth) ' ', [':', ' ']⟩

mutual

/-- The text of a value whose brackets stand at `depth`. -/
def write (l : Layout) (depth : Nat) : Json → List Char
  | .null => "null".toList
  | .bool b => if b then "true".toList else "false".toList
  | .number token => token.toList
  | .string s => quote s
  | .array [] => ['[', ']']
  | .array (v :: vs) =>
    '[' :: (l.line (depth + 1) ++ write l (depth + 1) v ++ writeItems l (depth + 1) vs
      ++ l.line depth ++ [']'])
  | .object [] => ['\x7b', '\x7d']
  | .object ((k, v) :: es) =>
    '\x7b' :: (l.line (depth + 1) ++ quote k ++ l.colon ++ write l (depth + 1) v
      ++ writeEntries l (depth + 1) es ++ l.line depth ++ ['\x7d'])

/-- The further items of an array, each after a comma. -/
def writeItems (l : Layout) (depth : Nat) : List Json → List Char
  | [] => []
  | v :: vs => ',' :: (l.line depth ++ write l depth v ++ writeItems l depth vs)

/-- The further entries of an object, each after a comma. -/
def writeEntries (l : Layout) (depth : Nat) : List (String × Json) → List Char
  | [] => []
  | (k, v) :: es =>
    ',' :: (l.line depth ++ quote k ++ l.colon ++ write l depth v ++ writeEntries l depth es)

end

/-- The text without blanks. -/
def compact (v : Json) : String := String.ofList (write .compact 0 v)

/-- The text indented by two spaces. -/
def indented (v : Json) : String := String.ofList (write .indented 0 v)

end VaultConsole.Json
