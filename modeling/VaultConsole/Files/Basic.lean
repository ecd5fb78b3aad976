import VaultConsole.Files.Fault
import VaultConsole.Text.Utf8

/-!
# File trees

A tree of files, directories and symbolic links. Names are any bytes. A location is where an entry really
is: the names of the directories from the top of the tree down to it, and its own.
-/

namespace VaultConsole

/-- The name of an entry of a directory. -/
abbrev FileName := List UInt8

namespace FileName

/-- The name that characters spell. -/
def ofChars (cs : List Char) : FileName := cs.flatMap String.utf8EncodeChar

/-- The characters that spell the name, if there are any. -/
def chars? (name : FileName) : Option (List Char) := (Text.Utf8.decodeOnto [] 0 name).toOption

/-- The point that begins hidden names and sets off extensions. -/
def point : UInt8 := 46

/-- The name by which a directory knows itself. -/
def here : FileName := [point]

/-- The name by which a directory knows the one that it is in. -/
def parent : FileName := [point, point]

/-- The greatest length of a name. -/
def maxLength : Nat := 255

/-- Whether an entry of the name is hidden: the name is a text that begins with a point. -/
def isHidden (name : FileName) : Bool := name.head? == some point && name.chars?.isSome

/-- What follows the last point of a name that has one after its first byte. -/
def extension? (name : FileName) : Option FileName :=
  match name.reverse.dropWhile (· != point) with
  | _ :: _ :: _ => some (name.reverse.takeWhile (· != point)).reverse
  | _ => none

end FileName

/-- An entry of a directory. -/
inductive Entry where
  | file (content : ByteArray)
  | directory (entries : List (FileName × Entry))
  | link (target : List UInt8)
  deriving Inhabited

/-- Where an entry really is. -/
abbrev Location := List FileName

/-- The entry at a location below an entry. -/
def Entry.find? : Entry → Location → Option Entry
  | e, [] => some e
  | .directory entries, name :: names => (entries.lookup name).bind fun e => e.find? names
  | _, _ :: _ => none

/-- A tree: the entries of its topmost directory. -/
structure FileTree where
  entries : List (FileName × Entry)
  deriving Inhabited

namespace FileTree

/-- A tree without entries. -/
def empty : FileTree := ⟨[]⟩

/-- The entry at a location. -/
def find? (t : FileTree) (l : Location) : Option Entry := (Entry.directory t.entries).find? l

end FileTree

end VaultConsole
