import VaultConsole.Console.Run
import VaultConsole.Lua.Bare

/-!
# The program

Reads the arguments, the environment, the files and the lines of input, and shows what the console answers.
Scripts run in a bare process, which they can write to and leave.
The directory of the vault is read anew for every line. Links are followed while it is read, so that
the tree at hand has files and directories only, and one link at most: the one at the path of the vault.
-/

namespace VaultConsole

/-- The bytes of a text. -/
def bytesOf (s : String) : List UInt8 := s.toUTF8.toList

/-- The file or the empty directory at a path, if there is one. -/
def loadFile (path : String) : IO (Option Entry) := do
  try return some (.file (← IO.FS.readBinFile path))
  catch _ =>
    try
      let _ ← (← IO.FS.realPath path).readDir
      return some (.directory [])
    catch _ => return none

/-- The entries of a directory and all that is below it. Only documents have their content. Directories that
are above themselves are passed by. -/
partial def loadDirectory (path : String) (above : List String) : IO (List (FileName × Entry)) := do
  let listing : Array IO.FS.DirEntry ← (← IO.FS.realPath path).readDir
  let mut entries := []
  for e in listing do
    let name := bytesOf e.fileName
    let found : Option Entry ← try
        let metadata : IO.FS.Metadata ← e.path.metadata
        match metadata.type with
        | .dir =>
          let real := (← IO.FS.realPath e.path).toString
          if above.contains real then pure none
          else pure (some (.directory (← loadDirectory e.path.toString (real :: above))))
        | .file =>
          if DirectoryVault.lists [name] then pure (some (.file (← IO.FS.readBinFile e.path)))
          else pure (some (.file ByteArray.empty))
        | _ => pure none
      catch _ => pure none
    entries := (found.map fun e => (name, e)).toList ++ entries
  return entries

/-- The tree with the directory of a vault in it, as it is now. -/
def loadVault (t : FileTree) (base : Location) (root : String) : IO FileTree := do
  try
    let real := (← IO.FS.realPath root).toString
    let segments := (segmentsOf (bytesOf real)).filter (!·.isEmpty)
    let t := t.place [] segments (.directory (← loadDirectory root [real]))
    match DirectoryVault.find t base root with
    | .ok (l, _) =>
      if l == segments then return t
      else return t.place (origin base (bytesOf root)) (segmentsOf (bytesOf root)) (.link (bytesOf real))
    | .error _ =>
      return t.place (origin base (bytesOf root)) (segmentsOf (bytesOf root)) (.link (bytesOf real))
  catch _ => return t

/-- The directory that the user keeps configurations in. -/
def userDirectory? : IO (Option String) := do
  match ← IO.getEnv "XDG_CONFIG_HOME" with
  | some path => if path.startsWith "/" then return some path
  | none => pure ()
  return (← IO.getEnv "HOME").map (· ++ "/.config")

/-- What the console is started with. -/
def loadSurroundings (arguments : List String) : IO Surroundings := do
  let (files, directory) :=
    FileTree.empty.makeDirectories [] (segmentsOf (bytesOf (← IO.currentDir).toString))
  let mut files := files
  if let some e ← loadFile ConsoleConfig.fileName then
    files := files.place directory (ConsoleConfig.segmentsOfNames [ConsoleConfig.fileName]) e
  let mut user := none
  if let some path ← userDirectory? then
    let (t, l) := files.makeDirectories [] (segmentsOf (bytesOf path))
    files := t
    user := some l
    if let some e ← loadFile ("/".intercalate (path :: ConsoleConfig.userPath)) then
      files := files.place l (ConsoleConfig.segmentsOfNames ConsoleConfig.userPath) e
  let names := [Environment.chunkNameVariable, Environment.memoryLimitVariable,
    Environment.vaultRootVariable, Environment.logLevelVariable, Environment.logFilterVariable]
  let values ← names.mapM fun name => do return (name, ← IO.getEnv name)
  let environment := Environment.ofLookup fun name => (values.lookup name).join
  let found := files
  return ⟨arguments, environment, Lua.Bare.platform, fun _ => found, directory, user⟩

/-- The next line of input with its newline; no bytes at the end of the input. -/
partial def readLine (input : IO.FS.Stream) (seen : List UInt8) : IO (List UInt8) := do
  match (← input.read 1).toList with
  | [] => return seen.reverse
  | b :: _ =>
    if b == Text.newline then return (b :: seen).reverse
    else readLine input (b :: seen)

/-- Shows the events that pass a filter. -/
def showEvents (filter : Filter) (events : List LogEvent) : IO Unit := do
  for e in events.filter filter.admits do IO.eprintln e.shown

/-- Puts bytes out. -/
def putBytes (bytes : List UInt8) : IO Unit := do
  let output ← IO.getStdout
  output.write bytes.toByteArray
  output.flush

/-- Shows a text. -/
def showText (text : String) : IO Unit := putBytes (bytesOf text)

/-- Says why the program fails, and gives its exit code. -/
def fail (cause : String) : IO UInt32 := do
  IO.eprintln (Run.failureText cause)
  return 1

/-- Goes on for ever. -/
partial def hang : IO UInt32 := do
  IO.sleep 1000
  hang

/-- Ends the program as a dialogue has ended. -/
def finish (filter : Filter) (p : Lua.Platform) (engine : Engine) (ended : RunEnd) : IO UInt32 := do
  match ended with
  | .done | .failed _ =>
    let released := engine.cleanup
    showEvents filter released.events
    putBytes (p.written released.calls ++ (p.after released.calls).rest [])
    match ended with
    | .failed cause => fail cause
    | _ => return 0
  | .exited status =>
    putBytes (p.rest [])
    return UInt32.ofNat (Run.statusCode status)
  | .stuck | .disturbed => hang

/-- Answers lines until the dialogue ends. -/
partial def converse (s : Surroundings) (c : VaultConfig) (filter : Filter) (input : IO.FS.Stream)
    (p : Lua.Platform) (engine : Engine) : IO UInt32 := do
  showText prompt
  let bytes ← readLine input []
  if bytes.isEmpty then finish filter p engine .done
  else
    match Text.lineText bytes with
    | .error fault => finish filter p engine (.failed fault.message)
    | .ok line =>
      if Command.ofLine? line = some .quit then finish filter p engine .done
      else
        let files ← loadVault s.files s.directory c.root
        let outside := { s with platform := p, filesAfter := fun _ => files }.outside c
        let a := Console.answerLine engine outside line
        showEvents filter a.events
        putBytes (p.written a.calls)
        for text in a.shown?.getD [] do showText (text ++ "\n")
        match a.ending? p with
        | some ended => finish filter (p.after a.calls) a.engine ended.runEnd
        | none => converse s c filter input (p.after a.calls) a.engine

/-- Runs the console on a valid configuration. -/
def runConsole (s : Surroundings) (c : ConsoleConfig) : IO UInt32 := do
  let filter := s.filter c.level
  let files ← loadVault s.files s.directory c.vault.root
  let outside := { s with filesAfter := fun _ => files }.outside c.vault
  showEvents filter [LogEvent.opening c.vault.root]
  let started := (Engine.new c.engine).start
  showEvents filter started.events
  match started.result with
  | .error e => fail e.text
  | .ok () =>
    let greeted := started.engine.banner outside
    showEvents filter greeted.events
    let p := s.platform.after greeted.calls
    match greeted.result with
    | none => finish filter p greeted.engine .stuck
    | some (.error e) => finish filter p greeted.engine (.failed e.text)
    | some (.ok banner) =>
      showText (banner ++ "\n")
      converse s c.vault filter (← IO.getStdin) p greeted.engine

/-- The program with its arguments. -/
def program (arguments : List String) : IO UInt32 := do
  let s ← loadSurroundings arguments
  match s.validConfig with
  | .error fault => fail fault.message
  | .ok c => runConsole s c

end VaultConsole

/-- The console as a program. -/
def main (arguments : List String) : IO UInt32 := VaultConsole.program arguments
