import VaultConsole.Text.Pieces

/-!
# Documents

A document is known by its path inside the vault, segments joined by `/`. The last segment is its
name; a name with a point after its first character splits at the last such point into basename and
extension.
-/

namespace VaultConsole

/-- The extension of the documents that a vault lists. -/
def markdownExtension : String := "md"

namespace Path

/-- The characters after the last `/`. -/
def lastSegment (path : List Char) : List Char := (path.reverse.takeWhile (· != '/')).reverse

/-- A name split at its last point into basename and extension. A name without a point, or whose
only point is its first character, is all basename. -/
def splitName (name : List Char) : List Char × List Char :=
  match name.reverse.dropWhile (· != '.') with
  | '.' :: c :: stem => ((c :: stem).reverse, (name.reverse.takeWhile (· != '.')).reverse)
  | _ => (name, [])

/-- The segments of a path; there may be empty ones. -/
def segments (path : List Char) : List (List Char) := Text.pieces '/' path

end Path

/-- A document of a vault. -/
structure Document where
  path : String
  deriving DecidableEq, Repr, Inhabited

namespace Document

/-- The last segment of the path. -/
def name (d : Document) : String := String.ofList (Path.lastSegment d.path.toList)

/-- The name without its extension. -/
def basename (d : Document) : String := String.ofList (Path.splitName d.name.toList).1

/-- What follows the last point of the name, without the point. -/
def extension (d : Document) : String := String.ofList (Path.splitName d.name.toList).2

/-- Whether a vault lists the document. -/
def isMarkdown (d : Document) : Bool := d.extension == markdownExtension

end Document

/-- What is told about a document: its path, the parts of it, and its content where that was read. -/
structure Descriptor where
  path : String
  name : String
  basename : String
  extension : String
  content? : Option String
  deriving DecidableEq, Repr, Inhabited

namespace Descriptor

/-- The description of a document whose content was not read. -/
def ofDocument (d : Document) : Descriptor := ⟨d.path, d.name, d.basename, d.extension, none⟩

/-- The description with a content. -/
def withContent (d : Descriptor) (content : String) : Descriptor := { d with content? := some content }

end Descriptor

end VaultConsole
