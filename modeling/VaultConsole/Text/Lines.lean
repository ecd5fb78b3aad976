import VaultConsole.Text.Utf8

/-!
# Lines of bytes

A line goes up to a newline, which is part of it, or up to the end of the bytes. It is read as text together
with its newline, which the text does not have; a carriage return before the newline is no part of the text
either.
-/

namespace VaultConsole.Text

/-- The newline among bytes. -/
def newline : UInt8 := 10

/-- The lines of a sequence of bytes, where `seen` came before on the same line, latest first. -/
def linesAfter (seen : List UInt8) : List UInt8 → List (List UInt8)
  | [] => if seen.isEmpty then [] else [seen.reverse]
  | b :: bs => if b == newline then (b :: seen).reverse :: linesAfter [] bs else linesAfter (b :: seen) bs

/-- The lines of a sequence of bytes. -/
def lines (bytes : List UInt8) : List (List UInt8) := linesAfter [] bytes

/-- A line without its newline. -/
def dropNewline (cs : List Char) : List Char :=
  match cs.reverse with
  | '\n' :: '\r' :: r => r.reverse
  | '\n' :: r => r.reverse
  | _ => cs

/-- The text of a line. -/
def lineText (line : List UInt8) : Except Utf8.Fault String :=
  (Utf8.decodeOnto [] 0 line).map fun cs => String.ofList (dropNewline cs)

end VaultConsole.Text
