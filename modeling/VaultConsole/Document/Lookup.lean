import VaultConsole.Document

/-!
# Finding a document

A query names a document by basename, by basename and the markdown ending, or by full path. The three
ways are tried in that order over the whole list, and the first document wins within each.
-/

namespace VaultConsole.Lookup

/-- The query without the markdown ending, if it has one. -/
def stem? (query : String) : Option String :=
  let ending := ('.' :: markdownExtension.toList).reverse
  let cs := query.toList.reverse
  if ending.isPrefixOf cs then some (String.ofList (cs.drop ending.length).reverse) else none

/-- The position of the first document with the given basename. -/
def byBasename (documents : List Document) (basename : String) : Option Nat :=
  documents.findIdx? (·.basename == basename)

/-- The position of the document that a query names. -/
def position? (documents : List Document) (query : String) : Option Nat :=
  byBasename documents query
    <|> (stem? query).bind (byBasename documents)
    <|> documents.findIdx? (·.path == query)

/-- The document that a query names. -/
def resolve (documents : List Document) (query : String) : Option Document :=
  (position? documents query).bind (documents[·]?)

end VaultConsole.Lookup
