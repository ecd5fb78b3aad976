import VaultConsole.Lua.Library.Format

/-!
# Functions on streams

A session reads from streams and writes to them by calls to the platform. What it keeps itself is which files it
has opened, which of them are closed by now, and which streams are used where none is given. A call that fails
gives nil, a text and a number; only a stream that is closed, or an argument, is an error.
-/

namespace VaultConsole.Lua.Library

/-! ## Results of calls -/

/-- What a function gives when a call has failed, about a file or about none. -/
def faulted (name? : Option ByteArray) (f : PlatformFault) : List Value :=
  let message := match name? with
    | some name => name ++ ": ".toUTF8 ++ f.message
    | none => f.message
  [.nil, .string message, .int f.code]

/-- What a function gives for a call that succeeds or fails. -/
def callResult (name? : Option ByteArray) : Except PlatformFault Unit → List Value
  | .ok () => [.bool true]
  | .error f => faulted name? f

/-- What a function gives for a command that has ended. -/
def commandResult : Except PlatformFault CommandEnd → List Value
  | .ok e =>
    [if !e.bySignal && e.code == 0 then .bool true else .nil,
      .text (if e.bySignal then "signal" else "exit"), .int e.code]
  | .error f => faulted none f

/-! ## Streams of a session -/

/-- What is said of a stream that is closed. -/
def closedText : String := "attempt to use a closed file"

/-- The stream that is the first argument, open or closed. -/
def streamOf (args : Args) : Action Stream :=
  match args.get 1 with
  | .stream s => pure s
  | _ => args.failType 1 "FILE*"

/-- The stream of the process that an open stream is; `closed` is said of a stream that is closed. -/
def openedOr (closed : String) (s : Stream) : Action Stream := do
  match ← Action.inspect (·.streams.process? s) with
  | some p => return p
  | none => Action.failLocated closed

/-- The stream of the process that an open stream is. -/
def opened (s : Stream) : Action Stream := openedOr closedText s

/-- Changes the streams. -/
def changeStreams (f : Streams → Streams) : Action Unit :=
  Action.change (fun h => { h with streams := f h.streams }) fun h => h.grows_streams _

/-- Adds a stream of the process to those of the session. -/
def addFile (p : Stream) (isPipe : Bool) : Action Stream :=
  Action.update (fun h =>
    let (streams, s) := h.streams.newFile ⟨p, isPipe, true⟩
    ({ h with streams }, s)) fun h => h.grows_streams _

/-- The stream that is read from unless another one is given. -/
def inputStream : Action Stream := do
  openedOr "default input file is closed" (← Action.inspect (·.streams.input))

/-- The stream that is written to unless another one is given. -/
def outputStream : Action Stream := do
  openedOr "default output file is closed" (← Action.inspect (·.streams.output))

/-- A file that has been opened, or what a function gives when that has failed. -/
def fileResult (name? : Option ByteArray) (isPipe : Bool) : Except PlatformFault Nat → Action (List Value)
  | .ok n => do return [.stream (← addFile (.file n) isPipe)]
  | .error f => pure (faulted name? f)

/-- Opens a file, which has to be there. -/
def openNamed (name mode : ByteArray) : Action Stream := do
  let answer : Except PlatformFault Nat ← Action.platform (.open name mode)
  match answer with
  | .ok n => addFile (.file n) false
  | .error f =>
    Action.fail (.located ("cannot open file '".toUTF8 ++ name ++ "' (".toUTF8 ++ f.message ++ ")".toUTF8))

/-- Closes a stream; those of the process itself stay open. -/
def closeStream (s : Stream) : Action (List Value) := do
  let p ← opened s
  match s with
  | .file _ =>
    let isPipe ← Action.inspect (·.streams.isPipe s)
    -- It counts as closed even if closing fails.
    changeStreams (·.closeFile s)
    if isPipe then return commandResult (← Action.platform (.wait p))
    else return callResult none (← Action.platform (.close p))
  | _ => return [.nil, .text "cannot close standard file"]

/-- Whether a file can be opened in a mode. -/
def isMode : List UInt8 → Bool
  | [] => false
  | b :: r =>
    let r := match r with
      | 43 :: r => r
      | r => r
    [114, 119, 97].contains b && r.all (· == 98)

/-- Whether a command can be started in a mode. -/
def isPipeMode (mode : List UInt8) : Bool := mode == [114] || mode == [119]

/-- The mode of an argument. -/
def modeOf (args : Args) (n : Nat) (allows : List UInt8 → Bool) : Action ByteArray := do
  let mode := (← args.name? n).getD "r".toUTF8
  if allows mode.toList then return mode else Action.failArgument n "invalid mode"

/-- Gives the stream that is used where none is given, after it has been set to the argument if there is one. -/
def useStream (args : Args) (mode : String) (get : Streams → Stream) (set : Stream → Streams → Streams) :
    Action (List Value) := do
  match args.get 1 with
  | .nil => pure ()
  | v =>
    let s ← match v.toBytes? with
      | some _ => openNamed (← args.name 1) mode.toUTF8
      | none => do
        let s ← streamOf args
        let _ ← opened s
        pure s
    changeStreams (set s)
  return [.stream (← Action.inspect fun h => get h.streams)]

/-! ## Reading -/

/-- What an argument asks to read. -/
def formatOf (args : Args) (n : Nat) : Action ReadFormat :=
  match args.get n with
  | .int _ | .float _ => do return .bytes (← args.int n).toUInt64
  | _ => do
    let form := match (← args.bytes n).toList with
      | 42 :: r => r
      | r => r
    match form.head? with
    | some 110 => return .number
    | some 108 => return .line false
    | some 76 => return .line true
    | some 97 => return .all
    | _ => Action.failArgument n "invalid format"

/-- The value of what was read; nil if there was nothing. -/
def valueRead : ReadFormat → Option ByteArray → Value
  | .number, some s => ((Numeral.read? s.toList).map Value.ofNumber).getD .nil
  | .all, none => .string ByteArray.empty
  | _, some s => .string s
  | _, none => .nil

/-- What reading gives: the values, latest first, unless there was a fault. -/
def readResult (values : List Value) : Option PlatformFault → List Value
  | some f => faulted none f
  | none => values.reverse

/-- Reads as many arguments ask for from a position on; what comes after one that gives nothing is not read. -/
def readArguments (p : Stream) (args : Args) :
    Nat → Nat → List Value → Option PlatformFault → Action (List Value)
  | 0, _, values, fault? => return readResult values fault?
  | count + 1, n, values, fault? => do
    let format ← formatOf args n
    let answer : ReadAnswer ← Action.platform (.read p format)
    let fault? := answer.fault?.or fault?
    match valueRead format answer.bytes? with
    | .nil => return readResult (.nil :: values) fault?
    | v =>
      Action.checkSize ((answer.bytes?.map ByteArray.size).getD 0)
      readArguments p args count (n + 1) (v :: values) fault?

/-- Reads what the arguments from a position on ask for: a line if there are none. -/
def readFrom (p : Stream) (args : Args) (first : Nat) : Action (List Value) :=
  if args.length < first then readArguments p [.text "l"] 1 1 [] none
  else readArguments p args (args.length + 1 - first) first [] none

/-- The number of formats that a function for reading can carry along. -/
def maxFormats : Nat := 250

/-- A function that reads what the further arguments ask for from a stream. -/
def newReader (s : Stream) (args : Args) (closes : Bool) : Action Value := do
  let formats := args.tail
  if formats.length > maxFormats then Action.failArgument (maxFormats + 2) "too many arguments"
  Action.update (fun h =>
    let r := h.streams.readers.size
    ({ h with streams := { h.streams with readers := h.streams.readers.push ⟨s, formats, closes⟩ } },
      .builtin (.io (.reader r)))) fun h => h.grows_streams _

/-- Reads for a function that reads at each call. -/
def readAgain (r : Nat) (args : Args) : Action (List Value) := do
  let reader ← Action.inspect (·.streams.readers.getD r default)
  let p ← openedOr "file is already closed" reader.stream
  let values ← readFrom p (args.headD .nil :: reader.formats) 2
  match values with
  | .nil :: reason :: _ => Action.fail (.located (reason.toBytes?.getD ByteArray.empty))
  | .nil :: [] =>
    if reader.closes then
      let _ ← closeStream reader.stream
    return []
  | values => return values

/-- Reads a file by lines, or the stream that is read from where no file is named. -/
def lines (args : Args) : Action (List Value) := do
  if args.isNone 1 then
    let s ← Action.inspect (·.streams.input)
    let _ ← opened s
    return [← newReader s args false]
  else
    let s ← openNamed (← args.name 1) "r".toUTF8
    return [← newReader s args true, .nil, .nil, .stream s]

/-! ## Writing -/

/-- The bytes that a value is written as: a float without the mark that tells it from an integer. -/
def bytesWritten (args : Args) (n : Nat) : Action ByteArray :=
  match args.get n with
  | .float b => pure (String.ofList ({ Directive.plain with precision? := some 14 }.float 'g' b)).toUTF8
  | _ => args.bytes n

/-- Writes as many arguments from a position on; gives the last fault if there was one. -/
def writeArguments (p : Stream) (args : Args) :
    Nat → Nat → Option PlatformFault → Action (Option PlatformFault)
  | 0, _, fault? => return fault?
  | count + 1, n, fault? => do
    let bytes ← bytesWritten args n
    -- After a fault, numbers are still written, and strings are not.
    if fault?.isSome && (args.get n).type == .string then writeArguments p args count (n + 1) fault?
    else
      let answer : Except PlatformFault Unit ← Action.platform (.write p bytes)
      match answer with
      | .ok () => writeArguments p args count (n + 1) fault?
      | .error f => writeArguments p args count (n + 1) (some f)

/-- Writes the arguments from a position on to a stream, and gives the stream. -/
def writeTo (p : Stream) (given : Value) (args : Args) (first : Nat) : Action (List Value) := do
  match ← writeArguments p args (args.length + 1 - first) first none with
  | none => return [given]
  | some f => return faulted none f

/-! ## The functions -/

/-- The place that an option means to count from. -/
def whenceOf : String → Whence
  | "set" => .start
  | "end" => .finish
  | _ => .current

/-- The way of buffering that an option means. -/
def bufferingOf : String → Buffering
  | "no" => .none
  | "line" => .line
  | _ => .full

/-- The size of a buffer unless another one is given. -/
def bufferSize : Int64 := 1024

/-- Carries out a method of a stream. -/
def streamMethod (name : String) (args : Args) : Action (List Value) := do
  let s ← streamOf args
  match name with
  | "close" => closeStream s
  | "flush" => do return callResult none (← Action.platform (.flush (← opened s)))
  | "lines" =>
    let _ ← opened s
    return [← newReader s args false]
  | "read" => readFrom (← opened s) args 2
  | "write" => writeTo (← opened s) (.stream s) args 2
  | "seek" =>
    let p ← opened s
    let whence := whenceOf (← args.option 2 (some "cur") ["set", "cur", "end"])
    let answer : Except PlatformFault Int64 ← Action.platform (.seek p whence (← args.intOr 3 0))
    match answer with
    | .ok position => return [.int position]
    | .error f => return faulted none f
  | "setvbuf" =>
    let p ← opened s
    let mode := bufferingOf (← args.option 2 none ["no", "full", "line"])
    return callResult none (← Action.platform (.setvbuf p mode (← args.intOr 3 bufferSize)))
  | "tostring" =>
    match ← Action.inspect (·.streams.process? s) with
    | some _ => return [.text ("file (" ++ Metamethod.addressText (.stream s) ++ ")")]
    | none => return [.text "file (closed)"]
  | _ =>
    -- What is closed already is left alone.
    if (← Action.inspect (·.streams.process? s)).isSome then
      let _ ← closeStream s
    return []

/-- Carries out a function on streams. -/
def io (f : IoFunction) (args : Args) : Action (List Value) :=
  match f with
  | .close => do
    if args.isEmpty then closeStream (← Action.inspect (·.streams.output))
    else closeStream (← streamOf args)
  | .flush => do return callResult none (← Action.platform (.flush (← outputStream)))
  | .input => useStream args "r" (·.input) fun s streams => { streams with input := s }
  | .output => useStream args "w" (·.output) fun s streams => { streams with output := s }
  | .lines => lines args
  | .open => do
    let name ← args.name 1
    let mode ← modeOf args 2 isMode
    fileResult (some name) false (← Action.platform (.open name mode))
  | .popen => do
    let command ← args.name 1
    let mode ← modeOf args 2 isPipeMode
    fileResult (some command) true (← Action.platform (.popen command mode))
  | .read => do readFrom (← inputStream) args 1
  | .tmpfile => do fileResult none false (← Action.platform .tmpfile)
  | .type => do
    match ← args.any 1 with
    | .stream s =>
      if (← Action.inspect (·.streams.process? s)).isSome then return [.text "file"]
      else return [.text "closed file"]
    | _ => return [.nil]
  | .write => do
    let p ← outputStream
    writeTo p (.stream (← Action.inspect (·.streams.output))) args 1
  | .streamMethod name => streamMethod name args
  | .reader r => readAgain r args

end VaultConsole.Lua.Library
