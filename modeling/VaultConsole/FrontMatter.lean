import VaultConsole.Text.Blank
import VaultConsole.Text.Slice
import VaultConsole.Yaml.Reader

/-!
# Front matter

A document may begin with a block between two fence lines. The first line is a fence of three hyphens; the
block goes on to the next line that is a fence of three hyphens or three points. Blank characters at the
end of a fence do not count, and a byte order mark in front of the document is passed over.
-/

namespace VaultConsole.FrontMatter

/-- The byte order mark. -/
def byteOrderMark : Char := Char.ofNat 0xFEFF

/-- The fence that opens a block. -/
def openingFence : List Char := ['-', '-', '-']

/-- The fences that close a block. -/
def closingFences : List (List Char) := [['-', '-', '-'], ['.', '.', '.']]

/-- The lines of a text, each with the line feed that ends it. -/
def lines : List Char → List (List Char)
  | [] => []
  | c :: cs =>
    if c = '\n' then ['\n'] :: lines cs
    else match lines cs with
      | [] => [[c]]
      | l :: ls => (c :: l) :: ls

/-- Whether a line closes a block. -/
def isClosing (line : List Char) : Bool := closingFences.contains (Text.dropBlankEnd line)

/-- The byte at which the first line that closes the block begins, where the lines begin at byte `offset`;
nothing if there is no such line. -/
def closingAt? : Nat → List (List Char) → Option Nat
  | _, [] => none
  | offset, l :: ls => if isClosing l then some offset else closingAt? (offset + Text.byteLength l) ls

/-- The characters without a byte order mark in front. -/
def dropMark : List Char → List Char
  | [] => []
  | c :: cs => if c = byteOrderMark then cs else c :: cs

/-- Where the block of a document begins and ends, in bytes, if the document begins with one. -/
def bounds? (text : List Char) : Option (Nat × Nat) :=
  match lines text with
  | [] => none
  | first :: rest =>
    if Text.dropBlankEnd first = openingFence then
      let start := Text.byteLength first
      (closingAt? start rest).map fun stop => (start, stop)
    else none

/-- The block of a document, if it begins with one. -/
def extract (text : String) : Option String :=
  let text := dropMark text.toList
  match bounds? text with
  | none => none
  | some (start, stop) => Text.slice? (String.ofList text) start stop

/-- The value of the block of a document, if it begins with one. A block without a value is an empty
mapping. -/
def read (text : String) : Except Yaml.Fault (Option Yaml) :=
  match extract text with
  | none => .ok none
  | some block =>
    match Yaml.read block with
    | .ok .null => .ok (some (.mapping []))
    | .ok y => .ok (some y)
    | .error fault => .error fault

end VaultConsole.FrontMatter
