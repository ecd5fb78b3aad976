import VaultConsole.Console.Run
import VaultConsole.Lua.Bare
import VaultConsole.Proofs.Banner
import VaultConsole.Proofs.InputLines
import VaultConsole.Proofs.Reset
import VaultConsole.Proofs.System

/-!
# What a console shows

A console that has started drives its engine line by line: each line that is read makes one call of the engine
or none (`call?`), and is answered in the world that the calls of the earlier lines left (`answer?`). `Hears` tells
which lines are heard of an input, and how the hearing stops: there are no more lines, a line asks for the end, a line
is no text, or what a line calls does not come back or takes from the input. Every input is heard in one way
(`exists_hears`, `unique`), and `ofInput_heard` says what becomes of it: what is shown is the banner and the exchanges
for the lines that are heard, and the events are those of their calls.
-/

namespace VaultConsole

/-- All that is around an engine, as it is. -/
def Around.self : Around Outside where
  view := id
  after := Outside.after
  after_nil o := by simp [Outside.after]
  view_after _ _ := rfl

/-- A console without files, variables and arguments, in a bare process. -/
def Surroundings.bare : Surroundings :=
  ⟨[], .ofLookup fun _ => none, Lua.Bare.platform, fun _ => .empty, [], none⟩

namespace Console

/-! ## What a line asks for -/

/-- Whether a line asks for the end. -/
def asksEnd (line : String) : Bool :=
  match Text.trim line with
  | ":quit" => true
  | ":q" => true
  | _ => false

/-- The call of the engine that a line asks for. -/
def call? (line : String) : Option (Move Outside) :=
  match Text.trim line with
  | "" => none
  | ":quit" => none
  | ":q" => none
  | ":clear" => none
  | ":reset" => some .reset
  | source => some (.execute source)

/-- The calls that lines ask for, in order. -/
def calls (lines : List String) : List (Move Outside) := lines.filterMap call?

/-- The world after a line. -/
def next (w : World Outside) (line : String) : World Outside := w.run .self (call? line).toList

/-- The reply to the call of a line; a line without one is replied to at once. -/
def reply (w : World Outside) (line : String) : Reply :=
  match call? line with
  | some call => (w.move .self call).2
  | none => ⟨[], [], some (.ok .none)⟩

/-- What is shown of the answer to a reset. -/
def resetShown : Except EngineError Engine.Answer → String
  | .ok _ => "Lua session reset. New VM initialized."
  | .error e => "Error: " ++ e.text

/-- What is shown of the answer to an execution, if anything is. -/
def executionShown? : Except EngineError Engine.Answer → Option String
  | .ok (.result (.output text)) => some text
  | .ok (.result (.value .nil)) => none
  | .ok (.result (.value v)) => some v.display
  | .ok _ => none
  | .error .notInitialized => some "Error: Lua engine not initialized, use :reset"
  | .error e => some ("Error: " ++ e.text)

/-- What is shown in answer to a line, if it is answered and anything is shown. -/
def answer? (w : World Outside) (line : String) : Option String :=
  match call? line with
  | some .reset => (reply w line).answer?.map resetShown
  | some _ => (reply w line).answer?.bind executionShown?
  | none => if Text.trim line = ":clear" then some "Output cleared." else none

/-- The bytes that come to the standard output for a line: the prompt, what its script writes there itself, and the
answer with a newline if there is one. -/
def exchange (w : World Outside) (line : String) : List UInt8 :=
  prompt.toUTF8.toList ++ w.store.platform.written (reply w line).calls ++
    (answer? w line).elim [] fun text => (text ++ "\n").toUTF8.toList

/-- What comes to the standard output for lines in order, each in the world that the calls of the earlier lines
left. -/
def transcript (w : World Outside) (lines : List String) : List UInt8 :=
  (lines.mapIdx fun i line => exchange (w.run .self (calls (lines.take i))) line).flatten

/-! ## What is heard -/

/-- How the hearing of lines stops. -/
inductive Ending where
  /-- There are no more lines. -/
  | exhausted
  /-- A line asked for the end. -/
  | asked
  /-- A line is no text. -/
  | unreadable
  /-- A script has left the process. -/
  | exited (status : Int64)
  /-- A script never comes back. -/
  | stuck
  /-- A script has taken from the input. -/
  | disturbed
  deriving DecidableEq, Repr

/-- The last prompt, if a line was expected that is not heard. -/
def Ending.lastPrompt : Ending → List UInt8
  | .exhausted | .unreadable => prompt.toUTF8.toList
  | .asked | .exited _ | .stuck | .disturbed => []

/-- The exit code of a console whose hearing stops so, if it is known to end. -/
def Ending.exitCode? : Ending → Option Nat
  | .exhausted | .asked => some 0
  | .unreadable => some 1
  | .exited status => some (Run.statusCode status)
  | .stuck | .disturbed => none

/-- How the call of a line stops the hearing, if it does. -/
def stop? (w : World Outside) (line : String) : Option Ending :=
  match (reply w line).answer? with
  | none => some (((Lua.exitStatus? (reply w line).calls).map .exited).getD .stuck)
  | some _ => if w.store.platform.hasTaken (reply w line).calls then some .disturbed else none

/-- What is heard of lines of bytes, and how the hearing stops. A line is heard if it is a text, and every line before
it is a text that neither asks for the end nor stops the hearing. -/
inductive Hears : World Outside → List (List UInt8) → List String → Ending → Prop where
  | exhausted (w : World Outside) : Hears w [] [] .exhausted
  | asked {w : World Outside} {line : List UInt8} {lines : List (List UInt8)} {text : String}
      (spelled : text.toUTF8.toList = line) (ends : asksEnd text = true) : Hears w (line :: lines) [text] .asked
  | unreadable {w : World Outside} {line : List UInt8} {lines : List (List UInt8)}
      (noText : ∀ text : String, text.toUTF8.toList ≠ line) : Hears w (line :: lines) [] .unreadable
  | stops {w : World Outside} {line : List UInt8} {lines : List (List UInt8)} {text : String} {ending : Ending}
      (spelled : text.toUTF8.toList = line) (goes : asksEnd text = false) (stops : stop? w text = some ending) :
      Hears w (line :: lines) [text] ending
  | next {w : World Outside} {line : List UInt8} {lines : List (List UInt8)} {text : String} {texts : List String}
      {ending : Ending} (spelled : text.toUTF8.toList = line) (goes : asksEnd text = false)
      (answered : stop? w text = none) (later : Hears (next w text) lines texts ending) :
      Hears w (line :: lines) (text :: texts) ending

/-- The lines that are consumed: those up to the first that asks for the end or stops the hearing, with that one. -/
def consumed (w : World Outside) : List String → List String
  | [] => []
  | line :: lines => if asksEnd line ∨ (stop? w line).isSome then [line] else line :: consumed (next w line) lines

/-- How the hearing of lines that are all texts stops. -/
def endingOf (w : World Outside) : List String → Ending
  | [] => .exhausted
  | line :: lines => if asksEnd line then .asked else (stop? w line).getD (endingOf (next w line) lines)

/-- The bytes that come to the standard output when the engine is released and the process ends. -/
def released (w : World Outside) : List UInt8 :=
  w.store.platform.written (w.move .self .cleanup).2.calls ++
    (w.move .self .cleanup).1.store.platform.rest []

/-- The bytes that come to the standard output at the end. A process that a script leaves does not release the
engine. -/
def closing (w : World Outside) : Ending → List UInt8
  | .exhausted | .unreadable | .asked => released w
  | .exited _ => w.store.platform.rest []
  | .stuck | .disturbed => []

/-- The events at the end. -/
def closingEvents (w : World Outside) : Ending → List LogEvent
  | .exhausted | .unreadable | .asked => (w.move .self .cleanup).2.events
  | .exited _ | .stuck | .disturbed => []

namespace Hears

variable {w : World Outside} {bytes : List (List UInt8)} {texts : List String} {ending : Ending}

theorem exists_hears (w : World Outside) (lines : List (List UInt8)) : ∃ texts ending, Hears w lines texts ending := by
  induction lines generalizing w with
  | nil => exact ⟨[], .exhausted, exhausted w⟩
  | cons line lines ih =>
    by_cases text : ∃ text : String, text.toUTF8.toList = line
    · obtain ⟨text, spelled⟩ := text
      cases asks : asksEnd text with
      | true => exact ⟨[text], .asked, asked spelled asks⟩
      | false =>
        cases stopped : stop? w text with
        | some ending => exact ⟨[text], ending, stops spelled asks stopped⟩
        | none =>
          obtain ⟨texts, ending, later⟩ := ih (Console.next w text)
          exact ⟨text :: texts, ending, next spelled asks stopped later⟩
    · exact ⟨[], .unreadable, unreadable (not_exists.1 text)⟩

/-- Lines that are texts are heard as far as they are consumed. -/
theorem of_texts (w : World Outside) (lines : List String) :
    Hears w (lines.map (·.toUTF8.toList)) (consumed w lines) (endingOf w lines) := by
  induction lines generalizing w with
  | nil => exact exhausted w
  | cons line lines ih =>
    rw [List.map_cons, consumed, endingOf]
    cases asks : asksEnd line with
    | true => exact asked rfl asks
    | false =>
      cases stopped : stop? w line with
      | some ending => exact stops rfl asks stopped
      | none => exact next rfl asks stopped (ih _)

/-- A text is heard as far as its lines are consumed. -/
theorem of_text (w : World Outside) (input : String) :
    let lines := (Text.linesBy '\n' input.toList).map String.ofList
    Hears w (Text.linesBy Text.newline input.toUTF8.toList) (consumed w lines) (endingOf w lines) := by
  intro lines
  have bytes : Text.linesBy Text.newline input.toUTF8.toList = lines.map (·.toUTF8.toList) := by
    rw [Text.Utf8.toList_toUTF8, Text.linesBy_encode, List.map_map]
    refine List.map_congr_left fun cs _ => ?_
    rw [Function.comp_apply, Text.Utf8.toList_toUTF8, String.toList_ofList]
  rw [bytes]
  exact of_texts w lines

/-- Texts with the same bytes are the same. -/
theorem eq_of_spelled {text text' : String} {line : List UInt8} (spelled : text.toUTF8.toList = line)
    (spelled' : text'.toUTF8.toList = line) : text = text' := by
  rw [← spelled', Text.Utf8.toList_toUTF8, Text.Utf8.toList_toUTF8] at spelled
  exact String.toList_injective (FileName.ofChars_injective spelled)

theorem unique {texts' : List String} {ending' : Ending} (hears : Hears w bytes texts ending)
    (hears' : Hears w bytes texts' ending') : texts = texts' ∧ ending = ending' := by
  -- A line is the bytes of one text only, and a text asks for the end, stops the hearing, or does neither, so both
  -- are of the same case.
  induction hears generalizing texts' ending' with
  | exhausted =>
    cases hears'
    exact ⟨rfl, rfl⟩
  | asked spelled ends =>
    cases hears' with
    | asked spelled' => exact ⟨congrArg (List.cons · []) (eq_of_spelled spelled spelled'), rfl⟩
    | unreadable noText => exact absurd spelled (noText _)
    | stops spelled' goes =>
      rw [eq_of_spelled spelled spelled', goes] at ends
      cases ends
    | next spelled' goes =>
      rw [eq_of_spelled spelled spelled', goes] at ends
      cases ends
  | unreadable noText =>
    cases hears' with
    | asked spelled => exact absurd spelled (noText _)
    | unreadable => exact ⟨rfl, rfl⟩
    | stops spelled => exact absurd spelled (noText _)
    | next spelled => exact absurd spelled (noText _)
  | stops spelled goes stops =>
    cases hears' with
    | asked spelled' ends =>
      rw [eq_of_spelled spelled spelled', ends] at goes
      cases goes
    | unreadable noText => exact absurd spelled (noText _)
    | stops spelled' goes' stops' =>
      obtain rfl := eq_of_spelled spelled spelled'
      exact ⟨rfl, Option.some.inj (stops.symm.trans stops')⟩
    | next spelled' goes' answered =>
      rw [eq_of_spelled spelled spelled', answered] at stops
      cases stops
  | next spelled goes answered later ih =>
    cases hears' with
    | asked spelled' ends =>
      rw [eq_of_spelled spelled spelled', ends] at goes
      cases goes
    | unreadable noText => exact absurd spelled (noText _)
    | stops spelled' goes' stops =>
      rw [eq_of_spelled spelled spelled', stops] at answered
      cases answered
    | next spelled' goes' answered' later' =>
      obtain rfl := eq_of_spelled spelled spelled'
      obtain ⟨rest, same⟩ := ih later'
      exact ⟨congrArg _ rest, same⟩

end Hears

/-! ## The answer to a line -/

/-- A command is told by the line without blank characters around it. -/
theorem ofLine?_congr {line line' : String} (same : Text.trim line = Text.trim line') :
    Command.ofLine? line = Command.ofLine? line' := by
  rw [Command.ofLine?, Command.ofLine?, same]

theorem asksEnd_iff (line : String) : asksEnd line = true ↔ Command.ofLine? line = some .quit := by
  unfold asksEnd Command.ofLine?
  generalize Text.trim line = code
  split
  · simp
  · simp
  · rename_i other other'
    split
    · simp
    · exact absurd rfl other
    · exact absurd rfl other'
    · simp
    · simp
    · simp

theorem not_quit {line line' : String} (same : Text.trim line = Text.trim line') (goes : asksEnd line' = false) :
    Command.ofLine? line ≠ some .quit := by
  rw [ofLine?_congr same, ne_eq, ← asksEnd_iff, goes]
  exact Bool.false_ne_true

theorem clears_iff (line : String) : Text.trim line = ":clear" ↔ Command.ofLine? line = some .clear := by
  unfold Command.ofLine?
  generalize Text.trim line = code
  split
  all_goals simp_all

/-- A command makes a call if it is a reset or a source. -/
theorem call?_eq (line : String) : call? line = (Command.ofLine? line).bind fun
    | .reset => some .reset
    | .run source => some (.execute source)
    | _ => none := by
  unfold call? Command.ofLine?
  generalize Text.trim line = code
  split
  · rfl
  · rfl
  · rfl
  · rfl
  · rfl
  · split
    · contradiction
    · contradiction
    · contradiction
    · contradiction
    · contradiction
    · rfl

theorem shownReset_eq (r : Except EngineError Unit) : shownReset r = resetShown (r.map fun _ => .none) := by
  cases r with
  | ok _ => rfl
  | error e => rfl

theorem shownResult_eq (r : Except EngineError Result) : shownResult r = executionShown? (r.map .result) := by
  cases r with
  | ok r =>
    cases r with
    | output text => rfl
    | value v => cases v <;> rfl
  | error e => cases e <;> rfl

/-- The answer to a line is what is shown of the reply to its call, if that comes back. -/
theorem answerLine_eq (w : World Outside) (line : String) :
    answerLine w.engine w.store line = ⟨(next w line).engine, (reply w line).events, (reply w line).calls,
      (reply w line).answer?.map fun _ => (answer? w line).toList⟩ := by
  have clears := clears_iff line
  rw [answer?, reply, next, call?_eq, answerLine]
  cases asked : Command.ofLine? line with
  | none => simp [World.run, clears, asked]
  | some command =>
    cases command with
    | quit => simp [World.run, clears, asked, answer]
    | clear => simp [World.run, clears, asked, answer]
    | reset => simp [World.run, World.move, World.respond, answer, shownReset_eq]
    | run source =>
      simp only [Option.bind_some, Option.toList_some, World.run, List.foldl_cons, List.foldl_nil, World.move,
        World.respond, answer, Around.self, id]
      cases (w.engine.execute w.store source).result with
      | none => rfl
      | some r => simp [shownResult_eq]

theorem answerLine_congr {line line' : String} (same : Text.trim line = Text.trim line') (engine : Engine)
    (o : Outside) : answerLine engine o line = answerLine engine o line' := by
  rw [answerLine, answerLine, ofLine?_congr same]

/-- What is around an engine after a line is what the calls to the platform have made of it. -/
theorem store_next (w : World Outside) (line : String) : (next w line).store = w.store.after (reply w line).calls := by
  rw [next, reply, call?_eq]
  cases Command.ofLine? line with
  | none => exact (Around.self.after_nil w.store).symm
  | some command =>
    cases command with
    | quit => exact (Around.self.after_nil w.store).symm
    | clear => exact (Around.self.after_nil w.store).symm
    | reset => rfl
    | run source => rfl

/-- A line that is not answered has nothing shown. -/
theorem getD_shown (w : World Outside) (line : String) :
    ((reply w line).answer?.map fun _ => (answer? w line).toList).getD [] = (answer? w line).toList := by
  rw [answer?, reply]
  cases call? line with
  | none => rfl
  | some call =>
    simp only []
    cases (w.move .self call).2.answer? with
    | some answer => rfl
    | none => cases call <;> rfl

theorem calls_cons (line : String) (lines : List String) :
    calls (line :: lines) = (call? line).toList ++ calls lines := by
  rw [calls, List.filterMap_cons]
  cases call? line with
  | none => rfl
  | some x => rfl

theorem transcript_cons (w : World Outside) (line : String) (lines : List String) :
    transcript w (line :: lines) = exchange w line ++ transcript (next w line) lines := by
  simp only [transcript, List.mapIdx_cons, List.flatten_cons, List.take_zero, List.take_succ_cons, calls_cons,
    World.run_append]
  rfl

/-- The line of a script that leaves the process is the last one that is heard. -/
theorem heard_of_left {w : World Outside} {line : String} {status : Int64} (goes : asksEnd line = false)
    (left : Lua.exitStatus? (reply w line).calls = some status) (never : (reply w line).answer? = none)
    (lines : List String) : consumed w (line :: lines) = [line] ∧ endingOf w (line :: lines) = .exited status := by
  have stops : stop? w line = some (.exited status) := by
    rw [stop?, never, left]
    rfl
  constructor
  · rw [consumed, if_pos (.inr (by rw [stops]; rfl))]
  · rw [endingOf, goes, stops]
    rfl

/-- All that comes out for a line whose call does not come back is what its script writes. -/
theorem shown_of_left {w : World Outside} {line : String} (never : (reply w line).answer? = none) (status : Int64) :
    transcript w [line] = prompt.toUTF8.toList ++ w.store.platform.written (reply w line).calls ∧
      closing (w.run .self (calls [line])) (.exited status) = w.store.platform.rest (reply w line).calls := by
  have silent : answer? w line = none := by
    have shown := getD_shown w line
    rw [never] at shown
    exact Option.toList_eq_nil_iff.1 shown.symm
  have last : w.run .self (calls [line]) = next w line := by
    rw [calls_cons, calls, List.filterMap_nil, List.append_nil, next]
  constructor
  · rw [transcript_cons, exchange, silent]
    simp [transcript]
  · rw [last, closing, store_next]
    rfl

/-- A line without a call has no answer but the notice of a clearing. -/
theorem exchange_of_idle {line : String} (idle : call? line = none) (w : World Outside) :
    exchange w line = prompt.toUTF8.toList ++
      if Text.trim line = ":clear" then "Output cleared.\n".toUTF8.toList else [] := by
  have silent : (reply w line).calls = [] := by
    rw [reply, idle]
  rw [exchange, silent, answer?, idle, Lua.Platform.written, List.append_nil]
  by_cases clears : Text.trim line = ":clear"
  · rw [if_pos clears, if_pos clears]
    rfl
  · rw [if_neg clears, if_neg clears]
    rfl

/-- A line that asks for the end makes no call and has no answer. -/
theorem quiet_of_asksEnd {line : String} (ends : asksEnd line = true) (w : World Outside) :
    call? line = none ∧ exchange w line = prompt.toUTF8.toList := by
  have asked := (asksEnd_iff line).1 ends
  have idle : call? line = none := by
    rw [call?_eq, asked]
    rfl
  have other : Text.trim line ≠ ":clear" := by
    rw [ne_eq, clears_iff, asked]
    decide
  refine ⟨idle, ?_⟩
  rw [exchange_of_idle idle, if_neg other, List.append_nil]

/-! ## The dialogue -/

/-- The endings of a dialogue that come of an ending of the hearing. -/
inductive Ending.Ends : Ending → DialogueEnd → Prop where
  | exhausted : Ends .exhausted .done
  | asked : Ends .asked .done
  | unreadable (fault : Text.Utf8.Fault) : Ends .unreadable (.unreadable fault)
  | exited (status : Int64) : Ends (.exited status) (.exited status)
  | stuck : Ends .stuck .stuck
  | disturbed : Ends .disturbed .disturbed

/-- The answer to a line ends the dialogue just if its call stops the hearing. -/
theorem ending?_answerLine (w : World Outside) (line : String) :
    match stop? w line with
    | none => (answerLine w.engine w.store line).ending? w.store.platform = none
    | some ending => ending.lastPrompt = [] ∧ ∃ ended,
      (answerLine w.engine w.store line).ending? w.store.platform = some ended ∧ ending.Ends ended := by
  rw [answerLine_eq, stop?]
  cases answered : (reply w line).answer? with
  | none =>
    cases left : Lua.exitStatus? (reply w line).calls with
    | none => exact ⟨rfl, .stuck, by simp [Answer.ending?, left], .stuck⟩
    | some status => exact ⟨rfl, .exited status, by simp [Answer.ending?, left], .exited status⟩
  | some answer =>
    cases taken : w.store.platform.hasTaken (reply w line).calls with
    | true => exact ⟨rfl, .disturbed, by simp [Answer.ending?, taken], .disturbed⟩
    | false => simp [Answer.ending?, taken]

end Console

namespace Dialogue

open Console

/-- The engine of a dialogue and what is around it. -/
def world (d : Dialogue) : World Outside := ⟨d.outside, d.engine⟩

/-- All bytes that were put out. -/
def shown (d : Dialogue) : List UInt8 := d.output.reverse.flatten

/-- An operation shows what its calls write. -/
theorem shown_after (d : Dialogue) (engine : Engine) (events : List LogEvent) (calls : List Lua.PlatformCall) :
    (d.after engine events calls).shown = d.shown ++ d.outside.platform.written calls := by
  simp [shown, after]

@[simp] theorem shown_display (d : Dialogue) (text : String) :
    (d.display text).shown = d.shown ++ text.toUTF8.toList := by
  simp [shown, display, put]

/-- Texts that are shown change nothing else. -/
theorem foldl_display (texts : List String) (d : Dialogue) :
    let d' := texts.foldl (fun d text => d.display (text ++ "\n")) d
    d'.world = d.world ∧ d'.events = d.events ∧
      d'.shown = d.shown ++ texts.flatMap fun text => (text ++ "\n").toUTF8.toList := by
  induction texts generalizing d with
  | nil => exact ⟨rfl, rfl, (List.append_nil _).symm⟩
  | cons text texts ih =>
    obtain ⟨world, events, shown⟩ := ih (d.display (text ++ "\n"))
    refine ⟨world, events, ?_⟩
    rw [List.foldl_cons, shown, shown_display, List.append_assoc, List.flatMap_cons]

/-- What a dialogue comes to when it adds an answer. -/
theorem add_eq (d : Dialogue) (a : Answer) :
    (d.add a).world = ⟨d.outside.after a.calls, a.engine⟩ ∧ (d.add a).events = a.events.reverse ++ d.events ∧
      (d.add a).shown = d.shown ++ d.outside.platform.written a.calls ++
        (a.shown?.getD []).flatMap fun text => (text ++ "\n").toUTF8.toList := by
  obtain ⟨world, events, shown⟩ := foldl_display (a.shown?.getD []) (d.after a.engine a.events a.calls)
  rw [shown_after] at shown
  exact ⟨world, events, shown⟩

/-- What a dialogue comes to when it answers a line: the call of the line is made, and the exchange is shown. -/
theorem add_answerLine (d : Dialogue) (line : String) :
    let d' := (d.display prompt).add (answerLine d.engine d.outside line)
    d'.world = next d.world line ∧ d'.events = (reply d.world line).events.reverse ++ d.events ∧
      d'.shown = d.shown ++ exchange d.world line := by
  have answer : answerLine d.engine d.outside line = _ := answerLine_eq d.world line
  obtain ⟨world, events, shown⟩ := add_eq (d.display prompt) (answerLine d.engine d.outside line)
  rw [answer] at world events shown ⊢
  refine ⟨world.trans ?_, events, shown.trans ?_⟩
  · have left : World.mk (next d.world line).store (next d.world line).engine = next d.world line := rfl
    rw [← left, store_next]
    rfl
  · have texts : (answer? d.world line).toList.flatMap (fun text => (text ++ "\n").toUTF8.toList) =
        (answer? d.world line).elim [] fun text => (text ++ "\n").toUTF8.toList := by
      cases answer? d.world line with
      | none => rfl
      | some text => exact List.flatMap_singleton _ _
    have asked : (d.display prompt).outside = d.world.store := rfl
    rw [getD_shown, texts, exchange, shown_display, asked, List.append_assoc, List.append_assoc, List.append_assoc]

/-- What a dialogue has come to when it ends. -/
structure Comes (d : Dialogue) (texts : List String) (ending : Ending) (d' : Dialogue) (ended : DialogueEnd) :
    Prop where
  world : d'.world = d.world.run .self (calls texts)
  events : d'.events = ((d.world.replies .self (calls texts)).flatMap (·.events)).reverse ++ d.events
  shown : d'.shown = d.shown ++ transcript d.world texts ++ ending.lastPrompt
  ends : ending.Ends ended

theorem events_reply (w : World Outside) (line : String) :
    (w.replies .self (call? line).toList).flatMap (·.events) = (reply w line).events := by
  rw [reply]
  cases call? line with
  | none => rfl
  | some call => exact List.append_nil _

/-- A dialogue that goes no further comes to what it is. -/
theorem Comes.nil (d : Dialogue) {ending : Ending} {ended : DialogueEnd} (silent : ending.lastPrompt = [])
    (ends : ending.Ends ended) : d.Comes [] ending d ended :=
  ⟨rfl, rfl, by simp [transcript, silent], ends⟩

/-- What a dialogue comes to after the answer to a line is what it comes to. -/
theorem Comes.cons {d r : Dialogue} {text : String} {texts : List String} {ending : Ending} {ended : DialogueEnd}
    (comes : ((d.display prompt).add (answerLine d.engine d.outside text)).Comes texts ending r ended) :
    d.Comes (text :: texts) ending r ended := by
  obtain ⟨world, events, shown⟩ := add_answerLine d text
  obtain ⟨world', events', shown', ends⟩ := comes
  rw [world] at world' events' shown'
  refine ⟨?_, ?_, ?_, ends⟩
  · rw [world', calls_cons, World.run_append, next]
  · rw [events', events, calls_cons, World.replies_append, List.flatMap_append, events_reply, List.reverse_append,
      List.append_assoc, next]
  · rw [shown', shown, transcript_cons, List.append_assoc d.shown]

/-- A dialogue comes to what is heard of its lines. -/
theorem goOn_comes (d : Dialogue) {bytes : List (List UInt8)} {texts : List String} {ending : Ending}
    (hears : Hears d.world bytes texts ending) {lines : List (Except Text.Utf8.Fault String)}
    (standing : List.Forall₂ Text.StandsFor lines bytes) : d.Comes texts ending (d.goOn lines).1 (d.goOn lines).2 := by
  -- Induction on what is heard: the line that stops the hearing comes last, and any other adds its exchange and goes
  -- on in the world that its call has left.
  generalize begins : d.world = w at hears
  induction hears generalizing d lines with
  | exhausted =>
    cases standing
    exact ⟨rfl, rfl, by simp [goOn, transcript, Ending.lastPrompt], .exhausted⟩
  | unreadable noText =>
    cases standing with
    | cons first =>
      obtain ⟨fault, rfl⟩ := first.fault noText
      exact ⟨rfl, rfl, by simp [goOn, transcript, Ending.lastPrompt], .unreadable fault⟩
  | @asked w line later text spelled ends =>
    cases standing with
    | cons first =>
      obtain ⟨read, rfl, same⟩ := first.read spelled
      obtain ⟨silent, shows⟩ := quiet_of_asksEnd ends d.world
      have idle : calls [text] = [] := by simp [calls, silent]
      rw [goOn, if_pos ((ofLine?_congr same).trans ((asksEnd_iff text).1 ends))]
      refine ⟨by rw [idle]; rfl, by rw [idle]; rfl, ?_, .asked⟩
      rw [transcript_cons, shows]
      simp [transcript, Ending.lastPrompt]
  | @stops w line later text ending spelled goes stops =>
    cases standing with
    | cons first =>
      obtain ⟨read, rfl, same⟩ := first.read spelled
      have asked := not_quit same goes
      have answer := ending?_answerLine d.world text
      rw [begins, stops, ← begins] at answer
      obtain ⟨silent, ended, answered, ends⟩ := answer
      have answered : (answerLine d.engine d.outside text).ending? d.outside.platform = some ended := answered
      rw [goOn, if_neg asked]
      simp only [answerLine_congr same, answered]
      exact Comes.cons (.nil _ silent ends)
  | @next w line later text texts ending spelled goes goesOn heard ih =>
    cases standing with
    | cons first standing =>
      obtain ⟨read, rfl, same⟩ := first.read spelled
      have asked := not_quit same goes
      have answer := ending?_answerLine d.world text
      rw [begins, goesOn, ← begins] at answer
      have answered : (answerLine d.engine d.outside text).ending? d.outside.platform = none := answer
      rw [goOn, if_neg asked]
      simp only [answerLine_congr same, answered]
      exact Comes.cons (ih _ standing (begins ▸ (add_answerLine d text).1))

theorem shown_finish (d : Dialogue) : d.finish.shown = d.shown ++ d.outside.platform.rest [] := by
  simp [shown, finish, put]

/-- A dialogue whose engine is released shows what is written then, and what was kept back. -/
theorem shown_release (d : Dialogue) : d.release.finish.shown = d.shown ++ released d.world := by
  rw [shown_finish, released, ← List.append_assoc]
  exact congrArg (· ++ _) (shown_after d _ _ _)

end Dialogue

namespace Run

open Console

/-- What comes of a dialogue that has ended. -/
theorem ofDialogue_ends (filter : Filter) (d : Dialogue) {ending : Ending} {ended : DialogueEnd}
    (ends : ending.Ends ended) :
    let run := ofDialogue filter d ended.runEnd
    run.output = d.shown ++ closing d.world ending ∧
    run.events = (d.events.reverse ++ closingEvents d.world ending).filter filter.admits ∧
    run.exitCode? = ending.exitCode? := by
  have events : d.release.finish.events.reverse = d.events.reverse ++ (d.world.move .self .cleanup).2.events := by
    have later : d.release.finish.events = (d.world.move .self .cleanup).2.events.reverse ++ d.events := rfl
    rw [later, List.reverse_append, List.reverse_reverse]
  cases ends with
  | exhausted => exact ⟨d.shown_release, congrArg (List.filter _) events, rfl⟩
  | asked => exact ⟨d.shown_release, congrArg (List.filter _) events, rfl⟩
  | unreadable fault => exact ⟨d.shown_release, congrArg (List.filter _) events, rfl⟩
  | exited status => exact ⟨d.shown_finish, congrArg (List.filter _) (List.append_nil _).symm, rfl⟩
  | stuck => exact ⟨(List.append_nil _).symm, congrArg (List.filter _) (List.append_nil _).symm, rfl⟩
  | disturbed => exact ⟨(List.append_nil _).symm, congrArg (List.filter _) (List.append_nil _).symm, rfl⟩

/-- The run of an engine that has its banner goes as far as lines are heard. -/
theorem ofEngine_heard (filter : Filter) {w : World Outside} {banner : String}
    (greeted : w.engine.banner w.store = ⟨w.engine, [], [], some (.ok banner)⟩) (events : List LogEvent)
    {bytes : List (List UInt8)} {texts : List String} {ending : Ending} (hears : Hears w bytes texts ending)
    {lines : List (Except Text.Utf8.Fault String)} (standing : List.Forall₂ Text.StandsFor lines bytes) :
    let after := w.run .self (calls texts)
    let run := ofEngine filter ⟨w.engine, w.store, events.reverse, []⟩ lines
    run.output = (banner ++ "\n").toUTF8.toList ++ transcript w texts ++ ending.lastPrompt ++ closing after ending ∧
    run.events = (events ++ (w.replies .self (calls texts)).flatMap (·.events) ++
      closingEvents after ending).filter filter.admits ∧
    run.exitCode? = ending.exitCode? := by
  intro after run
  let d : Dialogue := ⟨w.engine, w.store, events.reverse, [(banner ++ "\n").toUTF8.toList, []]⟩
  have begins : run = ofDialogue filter (d.goOn lines).1 (d.goOn lines).2.runEnd := by
    have kept : w.store.after [] = w.store := Around.self.after_nil w.store
    simp only [run, ofEngine, greeted, Dialogue.after, kept]
    rfl
  have here : d.world = w := rfl
  have greeting : d.shown = (banner ++ "\n").toUTF8.toList := by simp [Dialogue.shown, d]
  have noticed : d.events.reverse = events := List.reverse_reverse events
  obtain ⟨world, events', shown, ends⟩ := d.goOn_comes hears standing
  obtain ⟨output, events'', code⟩ := ofDialogue_ends filter (d.goOn lines).1 ends
  rw [here] at world events' shown
  rw [begins]
  refine ⟨?_, ?_, code⟩
  · rw [output, shown, world, greeting]
  · rw [events'', events', world, List.reverse_append, noticed, List.reverse_reverse]

/-- A console that has started is its engine after the start, and goes as far as lines are heard. -/
theorem ofInput_heard (s : Surroundings) {c : ConsoleConfig} (valid : s.validConfig = .ok c)
    (started : (Engine.new c.engine).start.result = .ok ()) {input : List UInt8} {texts : List String}
    {ending : Ending} :
    let begun := (World.new (s.outside c.vault) c.engine).move .self .start
    let after := begun.1.run .self (calls texts)
    let run := ofInput s input
    Hears begun.1 (Text.linesBy Text.newline input) texts ending →
    run.output = (About.banner Lua.Library.languageVersion ++ "\n").toUTF8.toList ++ transcript begun.1 texts ++
      ending.lastPrompt ++ closing after ending ∧
    run.events = (LogEvent.opening c.vault.root :: begun.2.events ++
      (begun.1.replies .self (calls texts)).flatMap (·.events) ++
      closingEvents after ending).filter (s.filter c.level).admits ∧
    run.exitCode? = ending.exitCode? := by
  intro begun after run hears
  have begins : begun.1 = World.fresh (s.outside c.vault) c.engine :=
    World.move_start rfl (congrArg (fun r => some (Except.map (fun _ => Engine.Answer.none) r)) started)
  have greeted : begun.1.engine.banner begun.1.store =
      ⟨begun.1.engine, [], [], some (.ok (About.banner Lua.Library.languageVersion))⟩ := by
    rw [begins]
    exact Engine.banner_fresh c.engine c.engine.memoryLimit? _
  have response : (Engine.new c.engine).start = ⟨begun.1.engine, begun.2.events, [], .ok ()⟩ := by
    rw [← started, ← World.startBy_calls (Engine.new c.engine) Lua.Session.start]
    rfl
  have outside : begun.1.store = s.outside c.vault := by
    rw [begins]
    rfl
  have whole : run = ofEngine (s.filter c.level) ⟨begun.1.engine, begun.1.store,
      (LogEvent.opening c.vault.root :: begun.2.events).reverse, []⟩ ((Text.lines input).map Text.lineText) := by
    simp only [run, ofInput, valid, ofConfig, response, outside, List.reverse_cons]
  rw [whole]
  exact ofEngine_heard (s.filter c.level) greeted _ hears (Text.lines_standFor input)

/-- The dialogue of a console that has started comes to the world that the calls have left. -/
theorem world_goOn (w : World Outside) {input : List UInt8} {texts : List String} {ending : Ending}
    (hears : Hears w (Text.linesBy Text.newline input) texts ending) :
    ((⟨w.engine, w.store, [], []⟩ : Dialogue).goOn ((Text.lines input).map Text.lineText)).1.world =
      w.run .self (calls texts) :=
  (Dialogue.goOn_comes ⟨w.engine, w.store, [], []⟩ hears (Text.lines_standFor input)).world

/-- **A console is its engine, driven line by line.** Whatever text comes in, the console shows the banner and the
exchanges for the lines that are consumed; what is noticed of it is what is noticed of the calls that these lines ask
for, in their order; and it ends as the last of these lines says. -/
theorem ofInput_text (s : Surroundings) {c : ConsoleConfig} (valid : s.validConfig = .ok c)
    (started : (Engine.new c.engine).start.result = .ok ()) (input : String) :
    let lines := (Text.linesBy '\n' input.toList).map String.ofList
    let begun := (World.new (s.outside c.vault) c.engine).move .self .start
    let heard := consumed begun.1 lines
    let made := calls heard
    let after := begun.1.run .self made
    let ending := endingOf begun.1 lines
    let run := ofInput s input.toUTF8.toList
    run.output = (About.banner Lua.Library.languageVersion ++ "\n").toUTF8.toList ++ transcript begun.1 heard ++
      ending.lastPrompt ++ closing after ending ∧
    run.events = (LogEvent.opening c.vault.root :: begun.2.events ++
      (begun.1.replies .self made).flatMap (·.events) ++
      closingEvents after ending).filter (s.filter c.level).admits ∧
    run.exitCode? = ending.exitCode? ∧
    ((⟨begun.1.engine, begun.1.store, [], []⟩ : Dialogue).goOn
      ((Text.lines input.toUTF8.toList).map Text.lineText)).1.world = after := by
  intro lines begun heard made after ending run
  have hears : Hears begun.1 (Text.linesBy Text.newline input.toUTF8.toList) heard ending :=
    .of_text begun.1 input
  obtain ⟨output, events, code⟩ := ofInput_heard s valid started hears
  exact ⟨output, events, code, world_goOn begun.1 hears⟩

/-- Without files, variables and arguments, a console is opened on the standard configuration. -/
theorem validConfig_bare : Surroundings.bare.validConfig = .ok .standard := by
  have missing : FileTree.empty.resolve FileTree.maxLinks [] (ConsoleConfig.segmentsOfNames
      [ConsoleConfig.fileName]) = .error .noSuchFile := by
    rw [ConsoleConfig.segmentsOfNames, List.map_singleton, FileTree.resolve_directory rfl]
    rfl
  have standard : ConsoleConfig.load .empty [] none = .standard := by
    rw [ConsoleConfig.load, ConsoleConfig.ofFile, FileTree.readText, FileTree.entryAt, missing]
    rfl
  have files : Surroundings.bare.config = (ConsoleConfig.load .empty [] none).withEnvironment _ := rfl
  rw [Surroundings.validConfig, files, standard]
  rfl

/-- The standard configuration sets no limit of memory, so a session is made. -/
theorem start_standard : (Engine.new ConsoleConfig.standard.engine).start.result = .ok () := by
  obtain ⟨limited, -⟩ | made := Lua.Session.start_cases none
  · exact absurd rfl limited
  · rw [Engine.start, Engine.new, Engine.startBy_fresh made]

/-- The world in which such a console has started. -/
theorem begun_bare : ((World.new (Surroundings.bare.outside ConsoleConfig.standard.vault)
    ConsoleConfig.standard.engine).move .self .start).1 =
      World.fresh (Surroundings.bare.outside ConsoleConfig.standard.vault) ConsoleConfig.standard.engine :=
  World.move_start rfl (World.start_unlimited rfl rfl)

/-- Nothing is kept back of a console whose scripts have written nothing. -/
theorem released_bare (c : VaultConfig) (config : EngineConfig) :
    released (World.fresh (Surroundings.bare.outside c) config) = [] := rfl

/-- The line after the one that asks for the end is not read. -/
theorem ofInput_text_quit :
    (Surroundings.bare.validConfig = .ok .standard ∧
      (Engine.new ConsoleConfig.standard.engine).start.result = .ok ()) ∧
    (ofInput .bare "\n:clear\n:quit\nx\n".toUTF8.toList).output =
      [About.banner Lua.Library.languageVersion ++ "\n", "lua> ", "lua> ", "Output cleared.\n", "lua> "].flatMap
        (·.toUTF8.toList) ∧
    (ofInput .bare "\n:clear\n:quit\nx\n".toUTF8.toList).exitCode? = some 0 := by
  have lines : (Text.linesBy '\n' "\n:clear\n:quit\nx\n".toList).map String.ofList =
      ["", ":clear", ":quit", "x"] := by
    decide +kernel
  refine ⟨⟨validConfig_bare, start_standard⟩, ?_⟩
  obtain ⟨output, -, code, -⟩ := ofInput_text .bare validConfig_bare start_standard "\n:clear\n:quit\nx\n"
  have heard : ∀ w, consumed w ["", ":clear", ":quit", "x"] = ["", ":clear", ":quit"] := fun w => rfl
  have asked : ∀ w, endingOf w ["", ":clear", ":quit", "x"] = .asked := fun w => rfl
  have blank : Text.trim "" = "" := by decide +kernel
  have clear : Text.trim ":clear" = ":clear" := by decide +kernel
  have quit : Text.trim ":quit" = ":quit" := by decide +kernel
  have shows : ∀ w, transcript w ["", ":clear", ":quit"] =
      ["lua> ", "lua> ", "Output cleared.\n", "lua> "].flatMap (·.toUTF8.toList) := by
    intro w
    simp only [transcript_cons]
    rw [exchange_of_idle (by rw [call?, blank]; rfl), exchange_of_idle (by rw [call?, clear]; rfl),
      exchange_of_idle (by rw [call?, quit]; rfl), blank, clear, quit]
    simp [transcript, prompt]
  have idle : calls ["", ":clear", ":quit"] = [] := rfl
  simp only [lines, heard, asked, shows, begun_bare] at output code
  refine ⟨?_, code⟩
  rw [output, Ending.lastPrompt, idle, World.run, List.foldl_nil, closing, released_bare, List.append_nil,
    List.append_nil]
  rfl

/-- The source of a script that leaves the process. -/
theorem compile_exit : Lua.Session.compile #[] EngineConfig.standard.sourceName "os.exit(3)" =
    .ok (Lua.Session.systemChunk "exit" [.int 3]) :=
  Lua.Session.compile_of_same (by decide +kernel)

/-- The reply to that script in a new session. -/
theorem reply_exit :
    let w := World.fresh (Surroundings.bare.outside ConsoleConfig.standard.vault) ConsoleConfig.standard.engine
    (reply w "os.exit(3)").calls = [.exit 3 false] ∧ (reply w "os.exit(3)").answer? = none := by
  intro w
  have asks : call? "os.exit(3)" = some (.execute "os.exit(3)") := by
    have command : Command.ofLine? "os.exit(3)" = some (.run "os.exit(3)") := by decide +kernel
    rw [call?_eq, command]
    rfl
  obtain ⟨left, never⟩ : (w.engine.execute w.store "os.exit(3)").calls = [.exit 3 false] ∧
      (w.engine.execute w.store "os.exit(3)").result = none :=
    Engine.execute_of_unanswered (f := .exit) (by decide) compile_exit (fun h => rfl) rfl
  rw [reply, asks]
  refine ⟨left, ?_⟩
  show (w.engine.execute w.store "os.exit(3)").result.map _ = none
  rw [never]
  rfl

/-- A line whose script leaves the process ends the console: no other one is read, and the status is that of the
script. -/
theorem ofInput_text_exit :
    (Surroundings.bare.validConfig = .ok .standard ∧
      (Engine.new ConsoleConfig.standard.engine).start.result = .ok ()) ∧
    (ofInput .bare "os.exit(3)\nreturn 1\n:quit\n".toUTF8.toList).output =
      [About.banner Lua.Library.languageVersion ++ "\n", "lua> "].flatMap (·.toUTF8.toList) ∧
    (ofInput .bare "os.exit(3)\nreturn 1\n:quit\n".toUTF8.toList).exitCode? = some 3 := by
  refine ⟨⟨validConfig_bare, start_standard⟩, ?_⟩
  have lines : (Text.linesBy '\n' "os.exit(3)\nreturn 1\n:quit\n".toList).map String.ofList =
      ["os.exit(3)", "return 1", ":quit"] := by
    decide +kernel
  have hears := Hears.of_text ((World.new (Surroundings.bare.outside ConsoleConfig.standard.vault)
    ConsoleConfig.standard.engine).move .self .start).1 "os.exit(3)\nreturn 1\n:quit\n"
  obtain ⟨output, -, code⟩ := ofInput_heard .bare validConfig_bare start_standard hears
  obtain ⟨left, never⟩ := reply_exit
  obtain ⟨consumed, ending⟩ :=
    heard_of_left (by decide +kernel) (congrArg Lua.exitStatus? left) never ["return 1", ":quit"]
  obtain ⟨shows, closes⟩ := shown_of_left never 3
  rw [lines, begun_bare] at output code
  rw [consumed, ending, shows, closes, left] at output
  rw [ending] at code
  -- The process writes nothing for the call, and has kept nothing back.
  have writes : Lua.Bare.platform.written [.exit 3 false] = [] := rfl
  have rest : Lua.Bare.platform.rest [.exit 3 false] = [] := rfl
  have platform : (World.fresh (Surroundings.bare.outside ConsoleConfig.standard.vault)
    ConsoleConfig.standard.engine).store.platform = Lua.Bare.platform := rfl
  refine ⟨?_, code⟩
  rw [output, platform, writes, rest, Ending.lastPrompt]
  simp [prompt]

end Run

end VaultConsole
