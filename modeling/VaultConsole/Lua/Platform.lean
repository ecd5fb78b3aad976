import VaultConsole.Lua.Value

/-!
# The platform

What the functions on the system and on streams ask of the process that a session runs in: its streams, files,
clocks and locale, and its end. A session knows nothing of them but the answers to its calls. An answer may
depend on all calls that the process has made before, so that what one script does to a file or to the locale is
there for the scripts after it, whatever session they run in.

A `Platform` is any such process. A call that does not come back has no answer: leaving the process never does.
-/

namespace VaultConsole.Lua

/-! ## Calls -/

/-- A part of a locale, or all of it. -/
inductive LocaleCategory where
  | all | collate | ctype | monetary | numeric | time
  deriving DecidableEq, Repr, Inhabited

/-- Where a position in a file is counted from. -/
inductive Whence where
  | start | current | finish
  deriving DecidableEq, Repr, Inhabited

/-- How a stream keeps what is written to it back. -/
inductive Buffering where
  | none | full | line
  deriving DecidableEq, Repr, Inhabited

/-- What is read from a stream. -/
inductive ReadFormat where
  /-- The longest text that a number may begin with. -/
  | number
  /-- A line, with the byte that ends it or without. -/
  | line (keeps : Bool)
  | all
  /-- At most so many bytes; none to see whether the stream has ended. -/
  | bytes (count : UInt64)
  deriving DecidableEq, Repr, Inhabited

/-- A moment in a calendar. Months, and the days of a week and of a year, are counted from one. -/
structure CalendarDate where
  year : Int
  month : Int
  day : Int
  hour : Int
  min : Int
  sec : Int
  weekday : Int
  yearday : Int
  /-- Whether clocks are put forward, if that is known. -/
  isSummer? : Option Bool
  deriving DecidableEq, Repr, Inhabited

/-- What a session asks of the process. -/
inductive PlatformCall where
  /-- The process ends with a status; whether the session is closed before. -/
  | exit (status : Int64) (closes : Bool)
  | clock
  | time
  /-- The date of a time, at the place of the process or everywhere. -/
  | date (time : Int64) (universal : Bool)
  /-- The time of a date, and the date put in order. -/
  | timeOf (d : CalendarDate)
  /-- A date in the form of one conversion, as the locale has it. -/
  | format (d : CalendarDate) (conversion : ByteArray)
  | hasShell
  | execute (command : ByteArray)
  | getenv (name : ByteArray)
  | remove (name : ByteArray)
  | rename (name other : ByteArray)
  | tmpname
  /-- Sets a locale, or asks for the current one. -/
  | setlocale (name? : Option ByteArray) (category : LocaleCategory)
  | open (name mode : ByteArray)
  | popen (command mode : ByteArray)
  | tmpfile
  | close (s : Stream)
  /-- Closes the stream of a command, and waits for the command. -/
  | wait (s : Stream)
  | flush (s : Stream)
  | read (s : Stream) (format : ReadFormat)
  | write (s : Stream) (bytes : ByteArray)
  | seek (s : Stream) (whence : Whence) (offset : Int64)
  | setvbuf (s : Stream) (mode : Buffering) (size : Int64)
  /-- The content of a file that is loaded, or of the standard input. -/
  | source (name? : Option ByteArray)
  /-- Whether a file can be opened. -/
  | readable (name : ByteArray)
  deriving DecidableEq, Inhabited

/-! ## Answers -/

/-- Why a call fails: a text and a number. -/
structure PlatformFault where
  message : ByteArray
  code : Int64
  deriving DecidableEq, Inhabited

/-- How a command has ended: by itself, or by a signal. -/
structure CommandEnd where
  bySignal : Bool
  code : Int64
  deriving DecidableEq, Repr, Inhabited

/-- What reading gives: bytes if there were any, and a fault if there was one. -/
structure ReadAnswer where
  bytes? : Option ByteArray
  fault? : Option PlatformFault
  deriving DecidableEq, Inhabited

/-- Why a file is not loaded: it cannot be opened, or not be read. -/
structure SourceFault where
  opened : Bool
  fault : PlatformFault
  deriving DecidableEq, Inhabited

/-- The type of the answers to a call. -/
def PlatformCall.Answer : PlatformCall → Type
  | .exit .. => Empty
  | .clock => UInt64
  | .time => Option Int64
  | .date .. => Option CalendarDate
  | .timeOf _ => Option Int64 × CalendarDate
  | .format .. => ByteArray
  | .hasShell | .readable _ => Bool
  | .execute _ | .wait _ => Except PlatformFault CommandEnd
  | .getenv _ | .tmpname | .setlocale .. => Option ByteArray
  | .remove _ | .rename .. | .close _ | .flush _ | .write .. | .setvbuf .. => Except PlatformFault Unit
  | .open .. | .popen .. | .tmpfile => Except PlatformFault Nat
  | .read .. => ReadAnswer
  | .seek .. => Except PlatformFault Int64
  | .source _ => Except SourceFault ByteArray

/-! ## Platforms -/

/-- A process around sessions. Each of its functions is told the calls that were made before, latest first. -/
structure Platform where
  /-- The answer to a call, or nothing if the call does not come back. -/
  answer : List PlatformCall → (c : PlatformCall) → Option c.Answer
  /-- The bytes that reach the standard output in the course of a call. -/
  writes : List PlatformCall → PlatformCall → List UInt8
  /-- Whether a call takes bytes from the standard input, so that nobody else reads them. -/
  takes : List PlatformCall → PlatformCall → Bool
  /-- The bytes that reach the standard output when the process ends. -/
  rest : List PlatformCall → List UInt8

namespace Platform

/-- A process in which nothing comes back. -/
def still : Platform := ⟨fun _ _ => none, fun _ _ => [], fun _ _ => false, fun _ => []⟩

/-- The process after calls, latest first. -/
def after (p : Platform) (calls : List PlatformCall) : Platform where
  answer later := p.answer (later ++ calls)
  writes later := p.writes (later ++ calls)
  takes later := p.takes (later ++ calls)
  rest later := p.rest (later ++ calls)

/-- The bytes that reach the standard output in the course of calls. -/
def written (p : Platform) : List PlatformCall → List UInt8
  | [] => []
  | c :: calls => p.written calls ++ p.writes calls c

/-- Whether calls take bytes from the standard input. -/
def hasTaken (p : Platform) : List PlatformCall → Bool
  | [] => false
  | c :: calls => p.hasTaken calls || p.takes calls c

@[simp] theorem after_nil (p : Platform) : p.after [] = p := by simp [after]

theorem after_append (p : Platform) (later calls : List PlatformCall) :
    p.after (later ++ calls) = (p.after calls).after later := by simp [after]

end Platform

/-- The status that a process which has made calls has ended with, if it has ended. -/
def exitStatus? : List PlatformCall → Option Int64
  | .exit status _ :: _ => some status
  | _ => none

end VaultConsole.Lua
