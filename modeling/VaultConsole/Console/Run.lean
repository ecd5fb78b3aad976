import VaultConsole.Console.Dialogue
import VaultConsole.Console.Start

/-!
# A run of the console

From the start to the end: what comes to the standard output, the events in their order, and how the run ends.
-/

namespace VaultConsole

/-- How a run of the console ends. -/
inductive RunEnd where
  | done
  | failed (cause : String)
  /-- A script has left the process. -/
  | exited (status : Int64)
  /-- The run goes on for ever. -/
  | stuck
  /-- A script has taken from the input, and what comes after it is not told. -/
  | disturbed
  deriving DecidableEq, Repr, Inhabited

/-- How a run ends whose dialogue has ended. -/
def DialogueEnd.runEnd : DialogueEnd → RunEnd
  | .done => .done
  | .unreadable fault => .failed fault.message
  | .exited status => .exited status
  | .stuck => .stuck
  | .disturbed => .disturbed

/-- A run of the console. -/
structure Run where
  /-- All that comes to the standard output. -/
  output : List UInt8
  /-- The events that pass the filter. -/
  events : List LogEvent
  ending : RunEnd
  deriving Inhabited

namespace Run

/-- What a run that failed says at its end. -/
def failureText (cause : String) : String := "Lua console failed to start: " ++ cause

/-- The part of a status that a process ends with. -/
def statusCode (status : Int64) : Nat := (status.toInt % 256).toNat

/-- The exit code of a run, if it is known to end. -/
def exitCode? (r : Run) : Option Nat :=
  match r.ending with
  | .done => some 0
  | .failed _ => some 1
  | .exited status => some (statusCode status)
  | .stuck | .disturbed => none

/-- A run of which no more than a dialogue is told. -/
def of (filter : Filter) (d : Dialogue) (ending : RunEnd) : Run :=
  ⟨d.output.reverse.flatten, d.events.reverse.filter filter.admits, ending⟩

/-- A run that ends with a dialogue. The engine is released unless the process is left in the middle. -/
def ofDialogue (filter : Filter) (d : Dialogue) (ending : RunEnd) : Run :=
  match ending with
  | .done | .failed _ => of filter d.release.finish ending
  | .exited _ => of filter d.finish ending
  | .stuck | .disturbed => of filter d ending

/-- The run of a dialogue on an engine: the banner, and the answers to the lines. -/
def ofEngine (filter : Filter) (d : Dialogue) (lines : List (Except Text.Utf8.Fault String)) : Run :=
  match d.engine.banner d.outside with
  | ⟨engine, events, calls, result⟩ =>
    let d := d.after engine events calls
    match result with
    | none => ofDialogue filter d (((Lua.exitStatus? calls).map .exited).getD .stuck)
    | some (.error e) => ofDialogue filter d (.failed e.text)
    | some (.ok banner) =>
      match (d.display (banner ++ "\n")).goOn lines with
      | (d, ended) => ofDialogue filter d ended.runEnd

/-- The run of a console on a valid configuration. -/
def ofConfig (s : Surroundings) (c : ConsoleConfig) (lines : List (Except Text.Utf8.Fault String)) : Run :=
  let filter := s.filter c.level
  let opening := LogEvent.opening c.vault.root
  let outside := s.outside c.vault
  match (Engine.new c.engine).start with
  | ⟨engine, events, _, .error e⟩ =>
    ofDialogue filter ⟨engine, outside, events.reverse ++ [opening], []⟩ (.failed e.text)
  | ⟨engine, events, _, .ok ()⟩ => ofEngine filter ⟨engine, outside, events.reverse ++ [opening], []⟩ lines

/-- The run of the console on an input. -/
def ofInput (s : Surroundings) (input : List UInt8) : Run :=
  match s.validConfig with
  | .error fault => ⟨[], [], .failed fault.message⟩
  | .ok c => ofConfig s c ((Text.lines input).map Text.lineText)

end Run

end VaultConsole
