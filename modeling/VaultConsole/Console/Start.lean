import VaultConsole.Config.Search
import VaultConsole.Engine
import VaultConsole.Logging.Filter
import VaultConsole.Vault.Directory

/-!
# Opening a console

From the files, the environment and the arguments to the configuration that a console is opened on. The
first argument names the directory of the vault, whatever else says so; the others do not matter. A console
is opened on a valid configuration only.
-/

namespace VaultConsole

/-- What a console is started with. Arguments are texts: a process whose first argument is none ends before it opens a
console. -/
structure Surroundings where
  arguments : List String
  environment : Environment
  platform : Lua.Platform
  /-- The files after calls to the platform, latest first. -/
  filesAfter : List Lua.PlatformCall → FileTree
  /-- The working directory. -/
  directory : Location
  /-- The directory that the user keeps configurations in. -/
  userDirectory? : Option Location

namespace Surroundings

/-- The files at the start. -/
def files (s : Surroundings) : FileTree := s.filesAfter []

/-- The configuration that files, environment and arguments make up. -/
def config (s : Surroundings) : ConsoleConfig :=
  let c := (ConsoleConfig.load s.files s.directory s.userDirectory?).withEnvironment s.environment
  match s.arguments with
  | root :: _ => { c with vault := { c.vault with root } }
  | [] => c

/-- The configuration to open a console on, if it is valid. -/
def validConfig (s : Surroundings) : Except ConfigFault ConsoleConfig :=
  match s.config.validate with
  | .ok () => .ok s.config
  | .error fault => .error fault

/-- The vault of a configuration. -/
def vault (s : Surroundings) (c : VaultConfig) : DirectoryVault :=
  .new s.files s.directory c.root c.active?

/-- What is around the engine of a configuration: scripts can change the files of the vault. -/
def outside (s : Surroundings) (c : VaultConfig) : Outside where
  vault calls := (DirectoryVault.new (s.filesAfter calls) s.directory c.root c.active?).view
  platform := s.platform

/-- The filter of events: the one of the environment if it is one, and else that of the configured level. -/
def filter (s : Surroundings) (level : Level) : Filter :=
  (s.environment.logFilter?.bind Filter.ofText?).getD (Filter.ofLevel level)

end Surroundings

/-- A console is opened on a directory. -/
def LogEvent.opening (root : String) : LogEvent := console .info ("Opening console on " ++ Text.quoted root)

end VaultConsole
