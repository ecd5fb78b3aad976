import VaultConsole.Files.Fault
import VaultConsole.Text.Blank

/-!
# Errors

Why a vault cannot be read, why a host function fails, why a session or an execution fails. Each error
is a constructor for its cause, and each type has one function that words it. The message of a failed
execution is that of the root cause, without a traceback.
-/

namespace VaultConsole

/-- Why the content of a document cannot be read. -/
inductive ReadFault where
  /-- A vault in memory has no document under the path. -/
  | notStored (path : String)
  /-- The file of the document cannot be read. -/
  | file (fault : FileFault)
  deriving DecidableEq, Repr, Inhabited

namespace ReadFault

/-- The kind of a fault. -/
def kind : ReadFault → String
  | .notStored _ => "NotFound"
  | .file fault => fault.kind

/-- The text of a fault. -/
def message : ReadFault → String
  | .notStored path => path ++ " is not in the vault"
  | .file fault => fault.message

end ReadFault

/-- Why a host function fails. -/
inductive BridgeError where
  /-- No document answers the query. -/
  | documentNotFound (query : String)
  | read (path : String) (cause : String)
  | yaml (detail : String)
  deriving DecidableEq, Repr, Inhabited

namespace BridgeError

/-- The text of a host error. -/
def message : BridgeError → String
  | .documentNotFound query => "Note not found: " ++ query
  | .read path cause => "Failed to read " ++ path ++ ": " ++ cause
  | .yaml detail => "Invalid YAML: " ++ detail

end BridgeError

/-- Why an evaluation ends without a value. -/
inductive ScriptError where
  /-- An error value raised by a script, as text. -/
  | runtime (text : String)
  /-- The source does not compile. -/
  | compile (text : String)
  | memory (text : String)
  | safety (text : String)
  | stackExhausted
  | notResumable
  /-- An error of the host. -/
  | host (cause : BridgeError)
  /-- An error of the host that is known by its text only. -/
  | external (text : String)
  /-- A value of one type where another is needed. -/
  | conversion (source target : String) (detail? : Option String)
  /-- An argument of a host function that cannot be converted. -/
  | argument (position : Nat) (cause : ScriptError)
  /-- A chunk name that holds a NUL byte, at a position. -/
  | nulInChunkName (position : Nat)
  /-- An error that passed through a host function. -/
  | callback (traceback : String) (cause : ScriptError)
  /-- An error with a remark. -/
  | context (remark : String) (cause : ScriptError)
  deriving DecidableEq, Repr, Inhabited

namespace ScriptError

/-- What marks the beginning of a traceback inside a text. -/
def tracebackMark : List Char := "\nstack traceback:".toList

/-- The characters before the first occurrence of a mark; `seen` came before, latest first. -/
def before (mark : List Char) (seen : List Char) : List Char → List Char
  | [] => seen.reverse
  | c :: cs => if mark.isPrefixOf (c :: cs) then seen.reverse else before mark (c :: seen) cs

/-- A text without its traceback and without blank characters at its end. -/
def stripTraceback (text : String) : String :=
  String.ofList (Text.dropBlankEnd (before tracebackMark [] text.toList))

/-- The text of a failed conversion. -/
def conversionText (source target : String) (detail? : Option String) : String :=
  "error converting Lua " ++ source ++ " to " ++ target
    ++ (match detail? with
      | some d => " (" ++ d ++ ")"
      | none => "")

/-- The full text of an error; layers and tracebacks included. -/
def text : ScriptError → String
  | .runtime t => "runtime error: " ++ t
  | .compile t => "syntax error: " ++ t
  | .memory t => "memory error: " ++ t
  | .safety t => "safety error: " ++ t
  | .stackExhausted =>
    "out of Lua stack, too many arguments to a Lua function or too many return values from a callback"
  | .notResumable => "coroutine is non-resumable"
  | .host cause => cause.message
  | .external t => t
  | .conversion source target detail? => conversionText source target detail?
  | .argument position cause => "bad argument #" ++ toString position ++ ": " ++ cause.text
  | .nulInChunkName position =>
    "invalid name: nul byte found in provided data at position: " ++ toString position
  | .callback traceback cause => cause.text ++ "\n" ++ traceback
  | .context remark cause => remark ++ "\n" ++ cause.text

/-- The message of an error: that of its root cause. A host error is told as it is; every other text
loses its traceback and the blank characters at its end. -/
def message : ScriptError → String
  | .callback _ cause => cause.message
  | .context _ cause => cause.message
  | .runtime t => stripTraceback t
  | .compile t => stripTraceback t
  | .host cause => cause.message
  | .external t => t
  | e => stripTraceback e.text

end ScriptError

/-- Why an operation of the engine fails. -/
inductive EngineError where
  /-- No session can be created. -/
  | initialization (cause : ScriptError)
  | notInitialized
  | execution (message : String)
  deriving DecidableEq, Repr, Inhabited

namespace EngineError

/-- The error of an execution that failed for a cause. -/
def ofScript (e : ScriptError) : EngineError := .execution e.message

/-- The text of an engine error. -/
def text : EngineError → String
  | .initialization cause => "Lua initialization failed: " ++ cause.text
  | .notInitialized => "Lua engine not initialized"
  | .execution message => message

/-- The message of a failed execution. -/
def message? : EngineError → Option String
  | .execution message => some message
  | _ => none

end EngineError

end VaultConsole
