import VaultConsole.Logging.Event
import VaultConsole.Lua.Session
import VaultConsole.Vault.Basic

/-!
# The engine

An engine either has a session or has none. Initialization makes a session if there is none, cleanup
releases it, and reset is the one after the other. Executions and the banner need a session. The
configuration tells how the next session is made, and how chunks are named from now on.

Each operation gives the engine afterwards, the events that it emitted in order, the calls that it made to the
platform, and its result. An execution that does not come back has none.
-/

namespace VaultConsole

/-- The configuration of an engine. -/
structure EngineConfig where
  /-- The name of chunks in error messages. -/
  chunkName : String
  /-- The greatest number of bytes that a session may use; zero is no limit. -/
  memoryLimit? : Option Nat
  deriving DecidableEq, Repr, Inhabited

namespace EngineConfig

/-- The configuration that is used unless another one is given. -/
def standard : EngineConfig := ⟨"console", none⟩

/-- The name of chunks as the session takes it: it is shown as it is. -/
def sourceName (c : EngineConfig) : String := "=" ++ c.chunkName

end EngineConfig

namespace LogEvent

/-- A session was made. -/
def initialized : LogEvent := console .info "Lua engine initialized"

/-- A session was released. -/
def released : LogEvent := console .info "Lua engine released"

/-- No session could be made. -/
def notInitialized (e : ScriptError) : LogEvent :=
  console .error ("Failed to initialize Lua engine: " ++ e.text)

/-- A source of a number of bytes is executed. -/
def executing (size : Nat) : LogEvent := console .debug ("Executing " ++ toString size ++ " bytes")

/-- An execution failed. -/
def executionFailed (e : EngineError) : LogEvent := console .debug ("Script failed: " ++ e.text)

end LogEvent

/-- An engine. -/
structure Engine where
  config : EngineConfig
  session? : Option Lua.Session
  deriving Inhabited

/-- An engine after an operation, the events that the operation emitted, the calls that it made to the platform,
latest first, and its result. -/
structure Response (ρ : Type) where
  engine : Engine
  events : List LogEvent
  calls : List Lua.PlatformCall
  result : ρ

/-! ## What is around an engine -/

namespace Vault

/-- What a vault answers to a session. -/
def answer (v : Vault) : Lua.Query → Lua.Reply
  | .name => .text v.name
  | .activeFile => .file v.activeFile
  | .allFiles => .files v.allFiles
  | .document query =>
    match v.document query with
    | .ok d => .document d
    | .error e => .failed e

/-- What a vault notes before it answers: whatever there is to note when the documents are listed. -/
def notes (v : Vault) : Lua.Query → List String
  | .allFiles => v.notices
  | .document _ => v.notices
  | _ => []

end Vault

/-- What is around an engine at one moment: a platform, and a vault, which further calls to the platform may
change. -/
structure Outside where
  /-- The vault after further calls, latest first. -/
  vault : List Lua.PlatformCall → Vault
  platform : Lua.Platform

namespace Outside

/-- What is around an engine as the host of its sessions. -/
def host (o : Outside) : Lua.Host where
  answer calls := (o.vault calls).answer
  waits calls := (o.vault calls).waits
  notes calls := (o.vault calls).notes
  platform := o.platform

/-- What is around an engine after calls to the platform, latest first. -/
def after (o : Outside) (calls : List Lua.PlatformCall) : Outside where
  vault later := o.vault (later ++ calls)
  platform := o.platform.after calls

/-- A platform around a vault that no call changes. -/
def around (v : Vault) (p : Lua.Platform) : Outside := ⟨fun _ => v, p⟩

end Outside

namespace Engine

/-- An engine without a session. -/
def new (config : EngineConfig) : Engine := ⟨config, none⟩

/-- Whether the engine has a session. -/
def isReady (e : Engine) : Bool := e.session?.isSome

/-- Changes the configuration. -/
def setConfig (e : Engine) (config : EngineConfig) : Engine := { e with config }

/-- Makes a session in a given way unless there is one. -/
def startBy (e : Engine) (make : Option Nat → Except ScriptError Lua.Session) :
    Response (Except EngineError Unit) :=
  match e.session? with
  | some _ => ⟨e, [], [], .ok ()⟩
  | none =>
    match make e.config.memoryLimit? with
    | .ok s => ⟨{ e with session? := some s }, [.initialized], [], .ok ()⟩
    | .error cause => ⟨e, [.notInitialized cause], [], .error (.initialization cause)⟩

/-- Makes a session unless there is one. -/
def start (e : Engine) : Response (Except EngineError Unit) := e.startBy Lua.Session.start

/-- Releases the session if there is one: its files are closed. -/
def cleanup (e : Engine) : Response (Except EngineError Unit) :=
  match e.session? with
  | some s => ⟨{ e with session? := none }, [.released], s.heap.streams.closings, .ok ()⟩
  | none => ⟨e, [], [], .ok ()⟩

/-- Releases the session and makes a new one in a given way. -/
def resetBy (e : Engine) (make : Option Nat → Except ScriptError Lua.Session) :
    Response (Except EngineError Unit) :=
  let first := e.cleanup
  let second := first.engine.startBy make
  { second with events := first.events ++ second.events, calls := second.calls ++ first.calls }

/-- Releases the session and makes a new one. -/
def reset (e : Engine) : Response (Except EngineError Unit) := e.resetBy Lua.Session.start

/-- Executes a source in a given way, which is told the name of chunks. -/
def executeBy (e : Engine)
    (run : String → Lua.Session → Lua.Session × Option (Except ScriptError Result)) (source : String) :
    Response (Option (Except EngineError Result)) :=
  match e with
  | ⟨config, none⟩ => ⟨⟨config, none⟩, [], [], some (.error .notInitialized)⟩
  | ⟨config, some s⟩ =>
    let (s, result) := run config.sourceName s
    let calls := s.heap.calls
    let logged := s.heap.logged.reverse.map LogEvent.ofRemark
    let events := .executing source.utf8ByteSize :: logged
    match result with
    | some (.ok r) => ⟨⟨config, some s⟩, events, calls, some (.ok r)⟩
    | some (.error cause) =>
      let error := EngineError.ofScript cause
      ⟨⟨config, some s⟩, events ++ [.executionFailed error], calls, some (.error error)⟩
    | none => ⟨⟨config, some s⟩, events, calls, none⟩

/-- Executes a source. -/
def execute (e : Engine) (o : Outside) (source : String) : Response (Option (Except EngineError Result)) :=
  e.executeBy (fun name s => s.execute o.host name source) source

/-- Reads the banner of the session in a given way. -/
def bannerBy (e : Engine) (read : Lua.Session → Lua.Session × Option (Except ScriptError String)) :
    Response (Option (Except EngineError String)) :=
  match e with
  | ⟨config, none⟩ => ⟨⟨config, none⟩, [], [], some (.error .notInitialized)⟩
  | ⟨config, some s⟩ =>
    let (s, result) := read s
    let calls := s.heap.calls
    let events := s.heap.logged.reverse.map LogEvent.ofRemark
    ⟨⟨config, some s⟩, events, calls, result.map (·.mapError EngineError.ofScript)⟩

/-- The banner of the session. -/
def banner (e : Engine) (o : Outside) : Response (Option (Except EngineError String)) :=
  e.bannerBy fun s => s.banner o.host

end Engine

end VaultConsole
