import VaultConsole.Config.Basic
import VaultConsole.Config.FromJson
import VaultConsole.Config.FromToml

/-!
# Reading configurations

A configuration file has a section for the engine, one for the vault and one for what is logged. What it does
not say is taken from the standard configuration, except that a section on what is logged has to give the
level. What is unknown is passed by.
-/

namespace VaultConsole

/-- The name of a level in configuration files. -/
def Level.name : Level → String
  | .error => "Error"
  | .warn => "Warn"
  | .info => "Info"
  | .debug => "Debug"
  | .trace => "Trace"

/-- The level of a name. -/
def Level.ofName? (name : String) : Option Level :=
  [Level.error, .warn, .info, .debug, .trace].find? (·.name == name)

namespace ConsoleConfig

/-- The greatest number of bytes that a configuration can name. -/
def maxMemoryLimit : Nat := 0xFFFFFFFFFFFFFFFF

/-- A field that is given has to be readable, and one that is not has a standard value. -/
def orStandard (standard : α) (read : Setting → Option α) : Option Setting → Option α
  | none => some standard
  | some v => read v

/-- A number of bytes, or none. -/
def limit? : Setting → Option (Option Nat)
  | .nothing => some none
  | .natural n => if n ≤ maxMemoryLimit then some (some n) else none
  | _ => none

/-- A text, or none. -/
def optionalText? : Setting → Option (Option String)
  | .nothing => some none
  | v => v.text?.map some

/-- The section of the engine. -/
def engineOf? (d : Setting.Dialect) (v : Setting) : Option EngineConfig := do
  let fields ← v.fields? d ["chunk_name", "memory_limit"]
  let chunkName ← orStandard EngineConfig.standard.chunkName Setting.text? (fields[0]?.getD none)
  let memoryLimit? ← orStandard EngineConfig.standard.memoryLimit? limit? (fields[1]?.getD none)
  return ⟨chunkName, memoryLimit?⟩

/-- The section of the vault. -/
def vaultOf? (d : Setting.Dialect) (v : Setting) : Option VaultConfig := do
  let fields ← v.fields? d ["root", "active"]
  let root ← orStandard VaultConfig.standard.root Setting.text? (fields[0]?.getD none)
  let active? ← orStandard VaultConfig.standard.active? optionalText? (fields[1]?.getD none)
  return ⟨root, active?⟩

/-- The section on what is logged, which has to give the level. -/
def levelOf? (d : Setting.Dialect) (v : Setting) : Option Level := do
  let fields ← v.fields? d ["level"]
  let level ← fields[0]?.getD none
  (level.case? d).bind Level.ofName?

/-- The configuration that a setting is. -/
def ofSetting? (d : Setting.Dialect) (v : Setting) : Option ConsoleConfig := do
  let fields ← v.fields? d ["engine", "vault", "logging"]
  let engine ← orStandard standard.engine (engineOf? d) (fields[0]?.getD none)
  let vault ← orStandard standard.vault (vaultOf? d) (fields[1]?.getD none)
  let level ← orStandard standard.level (levelOf? d) (fields[2]?.getD none)
  return ⟨engine, vault, level⟩

/-- The formats of configuration files. -/
inductive Format where
  | toml | json
  deriving DecidableEq, Repr

/-- The configuration that a text is. -/
def ofText (format : Format) (text : String) : Except ConfigFault ConsoleConfig :=
  let read? : Option ConsoleConfig := match format with
    | .toml => (Setting.readToml? text).bind (ofSetting? Setting.toml)
    | .json => (Setting.readJson? text).bind (ofSetting? Setting.json)
  match read? with
  | some c => .ok c
  | none => .error .malformed

end ConsoleConfig

end VaultConsole
