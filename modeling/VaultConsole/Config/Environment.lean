import VaultConsole.Config.Reading

/-!
# Variables that override a configuration

Each variable belongs to one field and leaves all others alone. A variable whose value is of no use leaves its
field alone too.
-/

namespace VaultConsole

/-- The variables of the environment that concern a console. A variable whose value is no text counts as absent. -/
structure Environment where
  chunkName? : Option String
  memoryLimit? : Option String
  vaultRoot? : Option String
  logLevel? : Option String
  /-- The filter of logged events, in place of the level. -/
  logFilter? : Option String
  deriving DecidableEq, Repr, Inhabited

namespace Environment

/-- The names of the variables. -/
def chunkNameVariable : String := "LUA_CONSOLE_CHUNK_NAME"
def memoryLimitVariable : String := "LUA_CONSOLE_MEMORY_LIMIT"
def vaultRootVariable : String := "LUA_CONSOLE_VAULT_ROOT"
def logLevelVariable : String := "LUA_CONSOLE_LOG_LEVEL"
def logFilterVariable : String := "RUST_LOG"

/-- The variables with the values that a look-up finds. -/
def ofLookup (find? : String → Option String) : Environment :=
  ⟨find? chunkNameVariable, find? memoryLimitVariable, find? vaultRootVariable, find? logLevelVariable,
    find? logFilterVariable⟩

/-- The number that a text is: digits, of which there is at least one, after an optional plus sign; no greater
than a configuration can name. -/
def limitOf? (text : String) : Option Nat :=
  let digits := match text.toList with
    | '+' :: r => r
    | r => r
  (Decimal.natOfDigits? 10 digits).filter (· ≤ ConsoleConfig.maxMemoryLimit)

/-- The level that a text names; the case of ASCII letters does not matter. -/
def levelOf? (text : String) : Option Level :=
  match String.ofList (text.toList.map Char.toLower) with
  | "trace" => some .trace
  | "debug" => some .debug
  | "info" => some .info
  | "warn" => some .warn
  | "warning" => some .warn
  | "error" => some .error
  | _ => none

end Environment

namespace ConsoleConfig

/-- The configuration with the fields that variables override. -/
def withEnvironment (c : ConsoleConfig) (e : Environment) : ConsoleConfig where
  engine :=
    { chunkName := (e.chunkName?.filter (!·.isEmpty)).getD c.engine.chunkName
      memoryLimit? := (e.memoryLimit?.bind Environment.limitOf?).or c.engine.memoryLimit? }
  vault :=
    { root := e.vaultRoot?.getD c.vault.root
      active? := c.vault.active? }
  level := (e.logLevel?.bind Environment.levelOf?).getD c.level

end ConsoleConfig

end VaultConsole
