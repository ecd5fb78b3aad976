/-!
# Faults of YAML documents

Why a text is no document, or why a document has no value.
-/

namespace VaultConsole.Yaml

/-- Why a text has no value. -/
inductive Fault where
  | character
  /-- A token that cannot stand where it stands. -/
  | token
  | indentation
  /-- A key without a colon on its line. -/
  | simpleKey
  | directive
  | anchor
  | tag
  | blockHeader
  | quoted
  | escape
  | plain
  /-- A node that is missing or not allowed. -/
  | node
  | unknownAnchor
  | documents
  | duplicateKey
  /-- A scalar that is not what its tag says, or an integer out of range. -/
  | scalar
  | depth
  | repetition
  deriving DecidableEq, Repr, Inhabited

namespace Fault

/-- The text of a fault. -/
def message : Fault → String
  | character => "control characters are not allowed"
  | token => "found character that cannot start any token"
  | indentation => "found a tab character where indentation is expected"
  | simpleKey => "could not find expected ':'"
  | directive => "invalid directive"
  | anchor => "did not find expected alphabetic or numeric character"
  | tag => "invalid tag"
  | blockHeader => "invalid block scalar header"
  | quoted => "found unexpected end of quoted scalar"
  | escape => "found unknown escape character"
  | plain => "invalid plain scalar"
  | node => "did not find expected node content"
  | unknownAnchor => "unknown anchor"
  | documents => "deserializing from YAML containing more than one document is not supported"
  | duplicateKey => "duplicate entry"
  | scalar => "invalid value"
  | depth => "recursion limit exceeded"
  | repetition => "repetition limit exceeded"

end Fault

end VaultConsole.Yaml
