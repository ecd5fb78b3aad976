import VaultConsole.Lua.Code
import VaultConsole.Lua.Platform
import VaultConsole.Lua.Table
import VaultConsole.Script.Capture
import VaultConsole.Script.Error

/-!
# The heap of a session

Everything that a reference leads to, what the session has printed and logged, what it has asked of the
platform, and how much memory it takes. Nothing in a heap refers to code that is running.
-/

namespace VaultConsole.Lua

/-- A variable that a closure carries along: a cell, or its value where nothing assigns to it. -/
inductive Captured where
  | cell (r : Nat)
  | value (v : Value)
  deriving Inhabited

/-- A function of the language with the variables that it carries along. -/
structure Closure where
  proto : Proto
  carried : Array Captured
  deriving Inhabited

/-- A search for one match after the other. -/
structure Matcher where
  subject : ByteArray
  pattern : ByteArray
  /-- Where the next match may begin. -/
  start : Nat
  /-- Where the last match ended. -/
  lastEnd? : Option Nat
  deriving Inhabited

/-- The state of the generator of random numbers. -/
structure Random where
  a : UInt64
  b : UInt64
  c : UInt64
  d : UInt64
  deriving DecidableEq, Repr, Inhabited

/-- What is logged in the course of an execution. -/
inductive Remark where
  /-- A text that a script logged. -/
  | script (text : String)
  /-- A notice of the host. -/
  | host (text : String)
  deriving DecidableEq, Repr, Inhabited

/-- A file that a session has opened. -/
structure OpenFile where
  /-- The stream of the process. -/
  stream : Stream
  /-- Whether a command is at the other end. -/
  isPipe : Bool
  isOpen : Bool
  deriving Inhabited

/-- The call that closes a file. -/
def OpenFile.closing (f : OpenFile) : PlatformCall := if f.isPipe then .wait f.stream else .close f.stream

/-- A function that reads from a stream at each call. -/
structure StreamReader where
  stream : Stream
  formats : List Value
  /-- Whether it closes the stream when there is no more. -/
  closes : Bool
  deriving Inhabited

/-- The streams of a session. -/
structure Streams where
  /-- The streams that are read from and written to unless another one is given. -/
  input : Stream
  output : Stream
  files : Array OpenFile
  readers : Array StreamReader
  deriving Inhabited

namespace Streams

/-- The streams of a new session. -/
def standard : Streams := ⟨.input, .output, #[], #[]⟩

/-- The stream of the process that a stream is; nothing for a file that is closed. -/
def process? (s : Streams) : Stream → Option Stream
  | .file n => s.files[n]?.bind fun f => if f.isOpen then some f.stream else none
  | std => some std

/-- Whether a stream leads to a command. -/
def isPipe (s : Streams) : Stream → Bool
  | .file n => (s.files[n]?.map (·.isPipe)).getD false
  | _ => false

/-- Adds a file. -/
def newFile (s : Streams) (f : OpenFile) : Streams × Stream :=
  ({ s with files := s.files.push f }, .file s.files.size)

/-- Counts a file as closed. -/
def closeFile (s : Streams) : Stream → Streams
  | .file n => { s with files := s.files.modify n fun f => { f with isOpen := false } }
  | _ => s

/-- The calls that close all files that are open, latest first: the files are closed in the opposite order of
their opening. -/
def closings (s : Streams) : List PlatformCall := (s.files.toList.filter (·.isOpen)).map (·.closing)

end Streams

/-- What the execution of a chunk can reach. -/
structure Heap where
  tables : Array Table
  closures : Array Closure
  cells : Array Value
  matchers : Array Matcher
  failures : Array ScriptError
  /-- The protos of functions that were written out as text. -/
  dumped : Array Proto
  /-- The table of globals. -/
  globals : Nat
  /-- The table of loaded packages, that of loaders that are there already, and that of the functions on packages. -/
  loaded : Nat
  preload : Nat
  package : Nat
  /-- The metatables of strings, of streams and of host errors. -/
  stringMeta : Option Nat
  streamMeta : Option Nat
  failureMeta : Option Nat
  /-- The metatable of sequences that come from the host. -/
  sequenceMeta : Nat
  printed : Capture
  /-- What was logged, latest first. -/
  logged : List Remark
  streams : Streams
  /-- What was asked of the platform, latest first. -/
  calls : List PlatformCall
  random : Random
  /-- The bytes that are taken to be in use, and how many may be. -/
  used : Nat
  limit? : Option Nat
  deriving Inhabited

namespace Heap

/-- The table that a reference leads to. -/
def table (h : Heap) (r : Nat) : Table := h.tables.getD r default

/-- Changes a table. -/
def modifyTable (h : Heap) (r : Nat) (f : Table → Table) : Heap :=
  { h with tables := h.tables.modify r f }

/-- Adds a table. -/
def newTable (h : Heap) (t : Table) : Heap × Nat :=
  let r := h.tables.size
  ({ h with tables := h.tables.push t, used := h.used + t.cost }, r)

/-- Adds a function. -/
def newClosure (h : Heap) (c : Closure) : Heap × Nat :=
  let r := h.closures.size
  ({ h with closures := h.closures.push c, used := h.used + 32 + 8 * c.carried.size }, r)

/-- Adds a cell. -/
def newCell (h : Heap) (v : Value) : Heap × Nat :=
  let r := h.cells.size
  ({ h with cells := h.cells.push v, used := h.used + 40 }, r)

/-- The content of a cell. -/
def cell (h : Heap) (r : Nat) : Value := h.cells.getD r .nil

def setCell (h : Heap) (r : Nat) (v : Value) : Heap := { h with cells := h.cells.setIfInBounds r v }

/-- Adds a host error. -/
def newFailure (h : Heap) (e : ScriptError) : Heap × Nat :=
  ({ h with failures := h.failures.push e }, h.failures.size)

/-- Keeps the proto of a function that is written out. -/
def newDumped (h : Heap) (p : Proto) : Heap := { h with dumped := h.dumped.push p }

/-- Adds a search. -/
def newMatcher (h : Heap) (m : Matcher) : Heap × Nat :=
  ({ h with matchers := h.matchers.push m }, h.matchers.size)

/-- The value that a table has under a key, without metamethods. -/
def rawGet (h : Heap) (r : Nat) (key : Value) : Value := (h.table r).get key

/-- Puts a value under a normal key, without metamethods. -/
def rawSet (h : Heap) (r : Nat) (key value : Value) : Heap :=
  match h with
  | ⟨tables, closures, cells, matchers, failures, dumped, globals, loaded, preload, package, sm, fm, em, qm, printed,
      logged, streams, calls, random, used, limit?⟩ =>
    let before := (tables.getD r default).cost
    let tables := tables.modify r fun t => t.set key value
    let after := (tables.getD r default).cost
    ⟨tables, closures, cells, matchers, failures, dumped, globals, loaded, preload, package, sm, fm, em, qm, printed,
      logged, streams, calls, random, used + (after - before), limit?⟩

/-- The reference of the metatable of a value. -/
def metatable? (h : Heap) : Value → Option Nat
  | .table r => (h.table r).metatable?
  | .string _ => h.stringMeta
  | .stream _ => h.streamMeta
  | .failure _ => h.failureMeta
  | _ => none

/-- The entry of the metatable of a value under a text; nil if there is none. -/
def metafield (h : Heap) (v : Value) (name : ByteArray) : Value :=
  match h.metatable? v with
  | some m => (h.table m).get (.string name)
  | none => .nil

/-- Prints a line. -/
def print (h : Heap) (line : String) : Heap := { h with printed := h.printed.writeLine line }

/-- Logs a text of a script. -/
def log (h : Heap) (text : String) : Heap := { h with logged := .script text :: h.logged }

/-- Logs notices of the host, in order. -/
def note (h : Heap) (texts : List String) : Heap :=
  if texts.isEmpty then h else { h with logged := (texts.map Remark.host).reverse ++ h.logged }

@[simp] theorem calls_note (h : Heap) (texts : List String) : (h.note texts).calls = h.calls := by
  unfold note
  split
  · rfl
  · rfl

/-- Keeps a call to the platform. -/
def record (h : Heap) (c : PlatformCall) : Heap := { h with calls := c :: h.calls }

/-- Whether more bytes than allowed are in use; a limit of zero is none. -/
def isExhausted (h : Heap) : Bool :=
  match h.limit? with
  | some n => n != 0 && h.used > n
  | none => false

/-- Whether a string of a size does not fit. -/
def exceeds (h : Heap) (size : Nat) : Bool :=
  match h.limit? with
  | some n => n != 0 && h.used + size > n
  | none => false

end Heap

end VaultConsole.Lua
