import VaultConsole.Engine
import VaultConsole.Files.Fault
import VaultConsole.Text.Blank

/-!
# Configurations

The configuration of a console: of its engine, of its vault, and of what it logs. A console is opened only on
a valid one.
-/

namespace VaultConsole

/-- The configuration of a vault in a directory. -/
structure VaultConfig where
  /-- The path of the directory. -/
  root : String
  /-- The path of the document that is active at first. -/
  active? : Option String
  deriving DecidableEq, Repr, Inhabited

namespace VaultConfig

/-- The configuration that is used unless another one is given: the working directory, without an active
document. -/
def standard : VaultConfig := ⟨".", none⟩

end VaultConfig

/-- The configuration of a console. -/
structure ConsoleConfig where
  engine : EngineConfig
  vault : VaultConfig
  /-- The least important events that are logged. -/
  level : Level
  deriving DecidableEq, Repr, Inhabited

/-- Why there is no configuration, or none that can be used. -/
inductive ConfigFault where
  /-- The file cannot be read, or cannot be written. -/
  | file (fault : FileFault)
  /-- The text of the file is no configuration. -/
  | malformed
  | blankChunkName
  | smallMemoryLimit (limit : Nat)
  | emptyRoot
  deriving DecidableEq, Repr, Inhabited

/-- The least number of bytes to which memory may be limited. -/
def minMemoryLimit : Nat := 65536

namespace ConfigFault

/-- The text of a fault. -/
def message : ConfigFault → String
  | .file fault => "Config file error: " ++ fault.message
  | .malformed => "Config parse error: not a configuration"
  | .blankChunkName => "Config validation error: Chunk name must not be empty"
  | .smallMemoryLimit limit =>
    "Config validation error: Memory limit " ++ toString limit ++ " is below the minimum of "
      ++ toString minMemoryLimit ++ " bytes"
  | .emptyRoot => "Config validation error: Vault root must not be empty"

end ConfigFault

/-- Whether an engine may be configured so: the chunk name is more than blank characters, and the memory is
not limited below the minimum. -/
def EngineConfig.validate (c : EngineConfig) : Except ConfigFault Unit :=
  if Text.allBlank c.chunkName then .error .blankChunkName
  else match c.memoryLimit? with
    | some limit => if limit < minMemoryLimit then .error (.smallMemoryLimit limit) else .ok ()
    | none => .ok ()

/-- Whether a vault may be configured so: its root is not empty. -/
def VaultConfig.validate (c : VaultConfig) : Except ConfigFault Unit :=
  if c.root.isEmpty then .error .emptyRoot else .ok ()

namespace ConsoleConfig

/-- The configuration that is used unless another one is given. -/
def standard : ConsoleConfig := ⟨.standard, .standard, .info⟩

/-- Whether a console may be opened on a configuration. -/
def validate (c : ConsoleConfig) : Except ConfigFault Unit :=
  match c.engine.validate with
  | .error fault => .error fault
  | .ok () => c.vault.validate

end ConsoleConfig

end VaultConsole
