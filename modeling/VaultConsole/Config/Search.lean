import VaultConsole.Config.Environment
import VaultConsole.Config.Saving
import VaultConsole.Files.Update

/-!
# Configuration files

Where a console looks for its configuration: in the working directory, then in the directory that the user
keeps configurations in. The first file that is a configuration counts as a whole.
-/

namespace VaultConsole.ConsoleConfig

/-- The name of the file in the working directory. -/
def fileName : String := "lua_console.toml"

/-- The way to the file below the directory of the user. -/
def userPath : List String := ["lua_console", "config.toml"]

/-- A path of names. -/
def segmentsOfNames (names : List String) : List FileName := names.map fun s => FileName.ofChars s.toList

/-- The configuration that a file is. -/
def ofFile (format : Format) (t : FileTree) (here : Location) (segments : List FileName) :
    Except ConfigFault ConsoleConfig :=
  match t.readText here segments with
  | .ok text => ofText format text
  | .error fault => .error (.file fault)

/-- Writes a configuration to a file as a text that is made of it in a given way. -/
def saveBy (write : ConsoleConfig → Option String) (c : ConsoleConfig) (t : FileTree) (here : Location)
    (segments : List FileName) : Except ConfigFault FileTree :=
  match write c with
  | none => .error .malformed
  | some text =>
    match t.writeFile here segments text.toUTF8 with
    | .ok t => .ok t
    | .error fault => .error (.file fault)

/-- Writes a configuration to a file. -/
def save (c : ConsoleConfig) (t : FileTree) (here : Location) (segments : List FileName) :
    Except ConfigFault FileTree :=
  c.saveBy (some ·.toToml) t here segments

/-- The configuration found in the working directory, else the one of the user, else the standard one. -/
def load (t : FileTree) (here : Location) (user? : Option Location) : ConsoleConfig :=
  match ofFile .toml t here (segmentsOfNames [fileName]) with
  | .ok c => c
  | .error _ =>
    match user? with
    | none => standard
    | some user =>
      match ofFile .toml t user (segmentsOfNames userPath) with
      | .ok c => c
      | .error _ => standard

end VaultConsole.ConsoleConfig
