import VaultConsole.Text.Shapeless

/-!
# Quoted texts

A text as messages show it: in quotes, with quotes and backslashes escaped, and with an escape for every
character that has no shape of its own.
-/

namespace VaultConsole.Text

/-- A code point as an escape in braces. -/
def codePointEscape (c : Char) : List Char :=
  ['\\', 'u', '\x7b'] ++ Nat.toDigits 16 c.toNat ++ ['\x7d']

/-- A character inside a quoted text. -/
def quotedChar (c : Char) : List Char :=
  match c with
  | '\x00' => ['\\', '0']
  | '\t' => ['\\', 't']
  | '\n' => ['\\', 'n']
  | '\r' => ['\\', 'r']
  | '\'' => ['\\', '\'']
  | '"' => ['\\', '"']
  | '\\' => ['\\', '\\']
  | c => if c.toNat < 0x20 || c.toNat == 0x7F || isShapeless c then codePointEscape c else [c]

/-- A text in quotes. -/
def quoted (s : String) : String := String.ofList ('"' :: (s.toList.flatMap quotedChar ++ ['"']))

end VaultConsole.Text
