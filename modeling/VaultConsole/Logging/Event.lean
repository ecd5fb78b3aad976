import VaultConsole.Lua.Heap

/-!
# Events

What an engine tells while it works: how important it is, what it is about, and a message. An event is shown
on one line; characters that could steer a terminal are shown by escapes.
-/

namespace VaultConsole

/-- How important an event is. -/
inductive Level where
  | error | warn | info | debug | trace
  deriving DecidableEq, Repr, Inhabited

namespace Level

/-- The rank of a level: the more important, the lower. -/
def rank : Level → Nat
  | .error => 1
  | .warn => 2
  | .info => 3
  | .debug => 4
  | .trace => 5

/-- The level as it stands before an event. -/
def label : Level → String
  | .error => "ERROR"
  | .warn => "WARN"
  | .info => "INFO"
  | .debug => "DEBUG"
  | .trace => "TRACE"

end Level

/-- An event. -/
structure LogEvent where
  level : Level
  target : String
  message : String
  deriving DecidableEq, Repr, Inhabited

namespace LogEvent

/-- The target of events of the console itself. -/
def consoleTarget : String := "lua_console"

/-- The target of events that scripts emit. -/
def scriptTarget : String := "lua"

/-- An event of the console itself. -/
def console (level : Level) (message : String) : LogEvent := ⟨level, consoleTarget, message⟩

/-- An event that a script emits. -/
def script (message : String) : LogEvent := ⟨.info, scriptTarget, message⟩

/-- What a session remarks. -/
def ofRemark : Lua.Remark → LogEvent
  | .script text => script text
  | .host text => console .warn text

/-- A character of a message as it is shown. -/
def shownChar (c : Char) : List Char :=
  let n := c.toNat
  if n == 0x1B || n == 0x07 || n == 0x08 || n == 0x0C || n == 0x7F then
    ['\\', 'x'] ++ Decimal.Rounded.hexDigits false 2 n
  else if 0x80 ≤ n && n ≤ 0x9F then ['\\', 'u', '\x7b'] ++ Nat.toDigits 16 n ++ ['\x7d']
  else [c]

/-- An event as it is shown. -/
def shown (e : LogEvent) : String :=
  e.level.label ++ " " ++ e.target ++ ": " ++ String.ofList (e.message.toList.flatMap shownChar)

end LogEvent

end VaultConsole
