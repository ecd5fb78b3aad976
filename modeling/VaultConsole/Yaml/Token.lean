/-!
# Tokens of YAML documents

Brackets mark collections: those of flow style are written, those of block style come from indentation.
-/

namespace VaultConsole.Yaml

/-- A token. -/
inductive Token where
  | version (major minor : Nat)
  /-- A handle that stands for the start of tags. -/
  | tagHandle (handle start : String)
  | documentStart
  | documentEnd
  | blockSequence
  | blockMapping
  | blockEnd
  | flowSequence
  | flowSequenceEnd
  | flowMapping
  | flowMappingEnd
  | blockEntry
  | flowEntry
  | key
  | value
  | alias (name : String)
  | anchor (name : String)
  /-- A tag, the handle of which is empty where the tag is whole. -/
  | tag (handle suffix : String)
  | scalar (text : String) (isPlain : Bool)
  deriving DecidableEq, Repr, Inhabited

end VaultConsole.Yaml
