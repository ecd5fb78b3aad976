import VaultConsole.Console.Command
import VaultConsole.Engine
import VaultConsole.Text.Lines

/-!
# The dialogue of a console

A console drives an engine line by line. Every line is answered by at most one operation of the engine and by
at most one text. The dialogue ends when a line asks for it, when the input ends, and when the input is no text.
A script can end it as well: it leaves the process, or it never comes back. And a script can take from the input
what the console would have read; which lines are left then is not known here, so that the dialogue is followed up
to that script.
-/

namespace VaultConsole

/-- What is shown where a line is expected. -/
def prompt : String := "lua> "

/-- The answer to a command: the engine afterwards, the events, the calls to the platform, latest first, and the
texts that are shown. An answer that does not come has none. -/
structure Answer where
  engine : Engine
  events : List LogEvent
  calls : List Lua.PlatformCall
  shown? : Option (List String)

namespace Console

/-- What is shown after an error. -/
def shownError (e : EngineError) : String :=
  match e with
  | .notInitialized => "Error: Lua engine not initialized, use :reset"
  | e => "Error: " ++ e.text

/-- What is shown after a reset. -/
def shownReset : Except EngineError Unit → String
  | .ok () => "Lua session reset. New VM initialized."
  | .error e => "Error: " ++ e.text

/-- What is shown after an execution; a nil is not shown. -/
def shownResult : Except EngineError Result → Option String
  | .ok r => r.render
  | .error e => some (shownError e)

/-- The answer to a command. -/
def answer (engine : Engine) (o : Outside) : Command → Answer
  | .quit => ⟨engine, [], [], some []⟩
  | .clear => ⟨engine, [], [], some ["Output cleared."]⟩
  | .reset =>
    match engine.reset with
    | ⟨engine, events, calls, result⟩ => ⟨engine, events, calls, some [shownReset result]⟩
  | .run source =>
    match engine.execute o source with
    | ⟨engine, events, calls, result⟩ => ⟨engine, events, calls, result.map fun r => (shownResult r).toList⟩

/-- The answer to a line; a line that asks for nothing has none. -/
def answerLine (engine : Engine) (o : Outside) (line : String) : Answer :=
  match Command.ofLine? line with
  | some c => answer engine o c
  | none => ⟨engine, [], [], some []⟩

end Console

/-- How a dialogue ends. -/
inductive DialogueEnd where
  /-- A line asked for the end, or there were no more lines. -/
  | done
  /-- A line was no text. -/
  | unreadable (fault : Text.Utf8.Fault)
  /-- A script has left the process. -/
  | exited (status : Int64)
  /-- A line is never answered. -/
  | stuck
  /-- A script has taken from the input. -/
  | disturbed
  deriving DecidableEq, Repr

/-- How a dialogue ends with an answer, if it does. -/
def Answer.ending? (p : Lua.Platform) (a : Answer) : Option DialogueEnd :=
  match a.shown? with
  | none => some (((Lua.exitStatus? a.calls).map .exited).getD .stuck)
  | some _ => if p.hasTaken a.calls then some .disturbed else none

/-- A dialogue so far: the engine and what is around it, the events and the pieces of the output, latest first. -/
structure Dialogue where
  engine : Engine
  outside : Outside
  events : List LogEvent
  output : List (List UInt8)

namespace Dialogue

/-- Puts bytes out. -/
def put (d : Dialogue) (bytes : List UInt8) : Dialogue := { d with output := bytes :: d.output }

/-- Shows a text. -/
def display (d : Dialogue) (text : String) : Dialogue := d.put text.toUTF8.toList

/-- A dialogue after an operation of the engine: what the scripts have written comes before what is shown. -/
def after (d : Dialogue) (engine : Engine) (events : List LogEvent) (calls : List Lua.PlatformCall) : Dialogue where
  engine := engine
  outside := d.outside.after calls
  events := events.reverse ++ d.events
  output := d.outside.platform.written calls :: d.output

/-- A dialogue after an answer. -/
def add (d : Dialogue) (a : Answer) : Dialogue :=
  (a.shown?.getD []).foldl (fun d text => d.display (text ++ "\n")) (d.after a.engine a.events a.calls)

/-- A dialogue with further lines, each after a prompt. -/
def goOn (d : Dialogue) : List (Except Text.Utf8.Fault String) → Dialogue × DialogueEnd
  | [] => (d.display prompt, .done)
  | .error fault :: _ => (d.display prompt, .unreadable fault)
  | .ok line :: lines =>
    if Command.ofLine? line = some .quit then (d.display prompt, .done)
    else
      let a := Console.answerLine d.engine d.outside line
      match a.ending? d.outside.platform with
      | some ended => ((d.display prompt).add a, ended)
      | none => goOn ((d.display prompt).add a) lines

/-- A dialogue with its engine released. -/
def release (d : Dialogue) : Dialogue :=
  match d.engine.cleanup with
  | ⟨engine, events, calls, _⟩ => d.after engine events calls

/-- A dialogue with all that has been written put out. -/
def finish (d : Dialogue) : Dialogue := d.put (d.outside.platform.rest [])

end Dialogue

end VaultConsole
