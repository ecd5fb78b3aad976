import VaultConsole.Config.Reading
import VaultConsole.Toml.Quoting

/-!
# Writing configurations

A configuration as a TOML document: a section for each part, in a fixed order, with a blank line between two
sections. A field without a value is left out.
-/

namespace VaultConsole.ConsoleConfig

/-- A line that gives a field a value. -/
def writeField (name : String) (value : List Char) : List Char :=
  name.toList ++ " = ".toList ++ value ++ ['\n']

/-- A line for a field that may have no value. -/
def writeField? (name : String) : Option (List Char) → List Char
  | some value => writeField name value
  | none => []

/-- The header of a section. -/
def writeHeader (name : String) : List Char := '[' :: (name.toList ++ [']', '\n'])

/-- The section of the engine. -/
def writeEngine (c : EngineConfig) : List Char :=
  writeHeader "engine" ++ writeField "chunk_name" (Toml.writeText c.chunkName)
    ++ writeField? "memory_limit" (c.memoryLimit?.map (Nat.toDigits 10))

/-- The section of the vault. -/
def writeVault (c : VaultConfig) : List Char :=
  writeHeader "vault" ++ writeField "root" (Toml.writeText c.root)
    ++ writeField? "active" (c.active?.map Toml.writeText)

/-- The section on what is logged. -/
def writeLevel (level : Level) : List Char :=
  writeHeader "logging" ++ writeField "level" (Toml.writeText level.name)

/-- A configuration as a document. -/
def toToml (c : ConsoleConfig) : String :=
  String.ofList (writeEngine c.engine ++ '\n' :: writeVault c.vault ++ '\n' :: writeLevel c.level)

end VaultConsole.ConsoleConfig
