import VaultConsole.Yaml.Character

/-!
# Places in a YAML document

A cursor knows the characters that are still to be read and how many characters and lines came before.
-/

namespace VaultConsole.Yaml

/-- A place in a document. -/
structure Cursor where
  rest : List Char
  index : Nat
  line : Nat
  column : Nat
  deriving Inhabited

namespace Cursor

/-- The start of a document. -/
def start (text : List Char) : Cursor := ⟨text, 0, 0, 0⟩

/-- The `n`-th character from here on, or the end mark. -/
def peek (c : Cursor) (n : Nat) : Char := c.rest.getD n endMark

/-- The next character, or the end mark. -/
def head (c : Cursor) : Char := c.rest.headD endMark

/-- Whether nothing is left. -/
def atEnd (c : Cursor) : Bool := c.rest.isEmpty

/-- The place `n` characters on, none of which ends a line. -/
def skip (c : Cursor) (n : Nat) : Cursor := ⟨c.rest.drop n, c.index + n, c.line, c.column + n⟩

/-- The place behind a line break; a carriage return with a line feed is one break. -/
def skipBreak (c : Cursor) : Cursor :=
  match c.rest with
  | '\r' :: '\n' :: r => ⟨r, c.index + 2, c.line + 1, 0⟩
  | _ :: r => ⟨r, c.index + 1, c.line + 1, 0⟩
  | [] => c

/-- What a line break means inside of a scalar: a line feed, unless it separates lines or paragraphs. -/
def breakText (c : Cursor) : List Char :=
  match c.rest with
  | '\u2028' :: _ => ['\u2028']
  | '\u2029' :: _ => ['\u2029']
  | b :: _ => if isBreak b then ['\n'] else []
  | [] => []

/-- The place behind a line break, if there is one here. -/
def skipBreak? (c : Cursor) : Cursor := if isBreak c.head then c.skipBreak else c

/-- The characters up to the first that does not have a property; none of them ends a line. -/
def takeWhile (p : Char → Bool) (c : Cursor) : List Char × Cursor :=
  let taken := c.rest.takeWhile p
  let n := taken.length
  (taken, ⟨c.rest.drop n, c.index + n, c.line, c.column + n⟩)

/-- The place of the first character that does not have a property. -/
def dropWhile (p : Char → Bool) (c : Cursor) : Cursor := (c.takeWhile p).2

/-- The place behind a comment, if there is one here. -/
def dropComment (c : Cursor) : Cursor :=
  if c.head == '#' then c.dropWhile fun x => !isBreakOrEnd x else c

/-- The characters up to the end of the line. -/
def takeLine (c : Cursor) : List Char × Cursor := c.takeWhile fun x => !isBreakOrEnd x

/-- Whether three characters at the start of a line mark the boundary of a document. -/
def isBoundary (mark : Char) (c : Cursor) : Bool :=
  c.column == 0 && c.peek 0 == mark && c.peek 1 == mark && c.peek 2 == mark && isSeparator (c.peek 3)

/-- Whether the boundary of a document is here. -/
def atBoundary (c : Cursor) : Bool := c.isBoundary '-' || c.isBoundary '.'

end Cursor

end VaultConsole.Yaml
