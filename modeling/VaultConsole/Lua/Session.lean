import VaultConsole.Lua.Export
import VaultConsole.Lua.Library.Globals
import VaultConsole.Lua.Machine.Step

/-!
# Sessions

A session keeps its globals, its coroutines and what they refer to from one chunk to the next. A chunk is
called by a helper that the session compiles for itself: the helper catches the errors of the chunk where
they are raised, turns an error table with a message into the text of that message, and raises the error
again. It holds the functions that it needs, so that a chunk cannot take them away.

A call may never come back: it can go on for ever, and it can leave the process. Then it has no ending, and whoever
waits for it gets nothing.
-/

namespace VaultConsole.Lua

/-- What the language keeps between two chunks. -/
structure Session where
  heap : Heap
  threads : Array ThreadState
  /-- The helper that calls chunks. -/
  runner : Value
  deriving Inhabited

/-- How a call ends. -/
inductive Ending where
  | returned (vs : List Value)
  | raised (e : Value)
  /-- The call does not come back. -/
  | absent
  deriving Inhabited

/-- The source of the helper. -/
def runnerSource : String := "
local xpcall, type, tostring, error = xpcall, type, tostring, error

local function handler(err)
    if type(err) == \"table\" and err.message ~= nil then
        return tostring(err.message)
    end
    return err
end

local function finish(ok, ...)
    if ok then
        return ...
    end
    error((...), 0)
end

return function(chunk)
    return finish(xpcall(chunk, handler))
end
"

/-- The name of the helper in messages. -/
def runnerName : String := "=runner"

namespace Session

/-- The number of steps for which a call is followed. -/
def patience : Nat := 0x4000000000000000

/-- How a machine has ended, if it has ended at all. -/
def ending (m : Machine) : Ending :=
  match m.focus with
  | .finished vs => .returned vs
  | .failed e => .raised e
  | _ => .absent

/-- A machine that is about to call a value in a coroutine of its own. -/
def machine (s : Session) (f : Value) (args : List Value) : Machine :=
  match s with
  | ⟨heap, threads, _⟩ =>
    ⟨.enter f args, default, [], heap, 0, 0, threads.size, threads.push .active, []⟩

/-- Calls a value in a coroutine of its own, to its end. -/
def call (host : Host) (s : Session) (f : Value) (args : List Value) : Session × Ending :=
  match s with
  | ⟨heap, threads, runner⟩ =>
    match Machine.run host patience (machine ⟨heap, threads, .nil⟩ f args) with
    | ⟨focus, act, stack, heap, depth, room, thread, threads, resumers⟩ =>
      -- The ending is read from a machine without its heap, so that the heap has one owner only.
      let result := ending ⟨focus, act, stack, default, depth, room, thread, #[], resumers⟩
      (⟨heap, threads.setIfInBounds thread .dead, runner⟩, result)

/-- Carries out an action of the host, during which nothing can be suspended. -/
def perform (host : Host) (s : Session) (a : Action (List Value)) : Session × Ending :=
  match s with
  | ⟨heap, threads, runner⟩ =>
    let bottom : Frame := .native .nil pure 0 0
    let m := Machine.runNative host ⟨.done, default, [bottom], heap, 0, 0, 0, threads, []⟩ .nil a
    match Machine.run host patience m with
    | ⟨focus, act, stack, heap, depth, room, thread, threads, resumers⟩ =>
      let result := ending ⟨focus, act, stack, default, depth, room, thread, #[], resumers⟩
      (⟨heap, threads, runner⟩, result)

/-- The error of the host that a raised value is. Values that are neither a text nor an error of the host
are told by their text, if telling comes back; errors in telling are told themselves, up to a number of them. -/
def tellErrorWithin (host : Host) : Nat → Session → Value → Session × Option ScriptError
  | 0, s, _ => (s, some (.runtime "error in error handling"))
  | fuel + 1, s, e =>
    match Library.toldError? s.heap e with
    | some told => (s, some told)
    | none =>
      match s.perform host (Library.tellText e) with
      | (s, .returned (.bool true :: v :: _)) => tellErrorWithin host fuel s v
      | (s, .returned (_ :: e :: _)) => tellErrorWithin host fuel s e
      | (s, .absent) => (s, none)
      | (s, _) => (s, some (.runtime ""))

/-- The error of the host that a raised value is. -/
def tellError (host : Host) (s : Session) (e : Value) : Session × Option ScriptError :=
  tellErrorWithin host Library.maxRaised s e

/-- A host that is asked nothing, on a platform that is asked nothing. -/
def noHost : Host where
  answer _ _ := .text ""
  waits _ := false
  notes _ _ := []
  platform := Platform.still

/-- A new session, or why none can be made. The limit on memory holds for the session as a whole; zero is
no limit. -/
def start (limit? : Option Nat) : Except ScriptError Session :=
  let heap := Library.startHeap limit?
  if heap.isExhausted then .error (.memory memoryMessage)
  else
    match Chunk.compile 0 runnerName.toUTF8 runnerSource.toUTF8 with
    | .error message => .error (.compile (Text.Utf8.lossy message))
    | .ok p =>
      let globals := heap.globals
      let (heap, r) := heap.newChunk p (.table globals)
      match call noHost ⟨heap, #[], .nil⟩ (.closure r) [] with
      | (s, .returned (runner :: _)) => .ok { s with runner }
      | (s, .raised e) => .error ((tellError noHost s e).2.getD (.runtime ""))
      -- The source of the helper gives one value.
      | (s, .returned []) | (s, .absent) => .ok s

/-! ## Chunks -/

/-- The position of the first NUL byte of a text. -/
def nulPosition? (s : String) : Option Nat := s.toUTF8.toList.findIdx? (· == 0)

/-- The function of a source as it stands. -/
def compileAs (dumped : Array Proto) (name source : String) : Except ScriptError Proto :=
  match nulPosition? name with
  | some i => .error (.nulInChunkName i)
  | none =>
    match Chunk.load 0 dumped name.toUTF8 source.toUTF8 "bt".toUTF8 with
    | .ok p => .ok p
    | .error message => .error (.compile (Text.Utf8.lossy message))

/-- What stands before a source that is taken for an expression. -/
def expressionMark : String := "return "

/-- The function of a source: of the expressions that it is, or else of the statements. If it is neither,
the fault is that of the statements. -/
def compile (dumped : Array Proto) (name source : String) : Except ScriptError Proto :=
  match compileAs dumped name (expressionMark ++ source) with
  | .ok p => .ok p
  -- Most sources are no expressions, so that the fault of this attempt would tell nothing.
  | .error _ => compileAs dumped name source

/-- Evaluates a source: its values as they are in the session, or the error that ends it, if it comes back. What
was printed, logged and asked of the platform before is forgotten. -/
def evaluate (host : Host) (s : Session) (name source : String) :
    Session × Option (Except ScriptError (List Value)) :=
  match s with
  | ⟨heap, threads, runner⟩ =>
    -- Everything else in the heap stays from the chunk before, also if this one does not compile.
    let heap := { heap with printed := Capture.empty, logged := [], calls := [], used := Library.startSize }
    match compile heap.dumped name source with
    | .error e => (⟨heap, threads, runner⟩, some (.error e))
    | .ok p =>
      let globals := heap.globals
      let (heap, r) := heap.newChunk p (.table globals)
      match call host ⟨heap, threads, runner⟩ runner [.closure r] with
      | (s, .returned vs) => (s, some (.ok vs))
      | (s, .raised e) =>
        let (s, e) := s.tellError host e
        (s, e.map .error)
      | (s, .absent) => (s, none)

/-- The result of an evaluation that gave values: what was printed, if it is more than blank characters,
and else the first value. -/
def result (h : Heap) (vs : List Value) : Result :=
  -- Printed text hides the values: they are told only where nothing was printed.
  let printed := Text.trim h.printed.text
  if printed.isEmpty then .value (h.exportValue (vs.headD .nil)) else .output printed

/-- Evaluates a source for its result. -/
def execute (host : Host) (s : Session) (name source : String) : Session × Option (Except ScriptError Result) :=
  match s.evaluate host name source with
  | (s, some (.ok vs)) =>
    let r := result s.heap vs
    (s, some (.ok r))
  | (s, some (.error e)) => (s, some (.error e))
  | (s, none) => (s, none)

/-- The banner that a session finds in its namespace. What was logged and asked of the platform before is
forgotten. -/
def banner (host : Host) (s : Session) : Session × Option (Except ScriptError String) :=
  let (s, found) := perform host { s with heap := { s.heap with logged := [], calls := [] } } do
    match ← Library.globalValue About.globalName with
    | .table r =>
      match ← Library.fieldProtected Metamethod.maxChain (.table r) (.text "header") with
      | .ok v =>
        match Library.textOf v with
        | .ok header => return [.text header]
        | .error e => Action.failHost e
      | .error e => Action.failHost e
    | v => Action.failHost (.conversion v.kind "table" none)
  match found with
  | .returned vs => (s, some (Library.textOf (vs.headD .nil)))
  | .raised e =>
    let (s, e) := s.tellError host e
    (s, e.map .error)
  | .absent => (s, none)

end Session

end VaultConsole.Lua
