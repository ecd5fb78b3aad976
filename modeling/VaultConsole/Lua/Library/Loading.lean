import VaultConsole.Lua.Chunk
import VaultConsole.Lua.Library.Streams

/-!
# Loading chunks

A chunk comes as a string, in pieces from a function that is called until it gives nothing more, or from a file.
-/

namespace VaultConsole.Lua.Library

/-- The number of times that functions of a script are asked for more. -/
def maxTurns : Nat := 0x4000000000000000

/-- What reading a chunk in pieces gives: its bytes, or the error of the function that gives them. -/
def readPieces (reader : Value) : Nat → ByteArray → Action (Except Value ByteArray)
  | 0, read => return .ok read
  | fuel + 1, read => do
    match ← Action.call (.builtin (.base .pcall)) [reader] with
    | .bool true :: piece :: _ =>
      match piece with
      | .nil => return .ok read
      | piece =>
        match piece.toBytes? with
        | some s =>
          -- An empty piece ends the chunk as nil does.
          if s.size = 0 then return .ok read
          else
            Action.checkSize (read.size + s.size)
            readPieces reader fuel (read ++ s)
        | none => return .error (.text "reader function must return a string")
    | .bool true :: [] => return .ok read
    | _ :: e :: _ => return .error e
    | _ => return .ok read

/-- The function of bytes, whose globals are given or those of the session. -/
def loadBytes (level : Nat) (name bytes mode : ByteArray) (globals? : Option Value) :
    Action (Except ByteArray Value) := do
  match ← Action.inspect fun h => Chunk.load level h.dumped name bytes mode with
  | .error message => return .error message
  | .ok p =>
    let globals ← match globals? with
      | some v => pure v
      | none => Action.inspect fun h => .table h.globals
    let r ← Action.update (·.newChunk p globals) fun h => h.grows_newChunk p globals
    return .ok (.closure r)

/-- The argument at a position, even if it is nil. -/
def given? (args : Args) (n : Nat) : Option Value := if args.length < n then none else some (args.get n)

/-- The function of a chunk, or nothing and why there is none. -/
def load (level : Nat) (args : Args) : Action (List Value) := do
  let mode ← args.bytesOr 3 "bt".toUTF8
  let source ← match (args.get 1).toBytes? with
    | some s => do
      -- A chunk without a name is called by its source.
      let name ← args.bytesOr 2 s
      pure (Except.ok (name, s))
    | none => do
      let name ← args.bytesOr 2 "=(load)".toUTF8
      if (args.get 1).type != .function then args.failType 1 "function"
      match ← readPieces (args.get 1) maxTurns ByteArray.empty with
      | .ok s => pure (Except.ok (name, s))
      | .error e => pure (Except.error e)
  match source with
  | .error e => return [.nil, e]
  | .ok (name, bytes) =>
    match ← loadBytes level name bytes mode (given? args 4) with
    | .error message => return [.nil, .string message]
    | .ok f => return [f]

/-! ## Files -/

/-- The bytes of a file without a mark of their order; a part of a mark is lost. -/
def skipMark : List UInt8 → List UInt8
  | 0xEF :: 0xBB :: 0xBF :: r => r
  | 0xEF :: 0xBB :: _ :: r => 0xEF :: r
  | 0xEF :: _ :: r => 0xEF :: r
  | r => r

/-- The chunk in the bytes of a file: a first line that begins with a hash mark does not belong to it, but
counts as a line of a source. -/
def chunkOfFile (bytes : List UInt8) : List UInt8 :=
  match skipMark bytes with
  | 35 :: r =>
    let rest := (r.dropWhile (· != 10)).tail
    if rest.head? == some 27 then rest else 10 :: rest
  | r => r

/-- Why a file is not loaded. -/
def sourceFaultText (name : ByteArray) (f : SourceFault) : ByteArray :=
  (if f.opened then "cannot read " else "cannot open ").toUTF8 ++ name ++ ": ".toUTF8 ++ f.fault.message

/-- The function of a file, or of the standard input where none is named. -/
def loadNamed (level : Nat) (name? : Option ByteArray) (mode : ByteArray) (globals? : Option Value) :
    Action (Except ByteArray Value) := do
  let answer : Except SourceFault ByteArray ← Action.platform (.source name?)
  match answer with
  | .error fault => return .error (sourceFaultText (name?.getD "stdin".toUTF8) fault)
  | .ok bytes =>
    let shown := match name? with
      | some name => "@".toUTF8 ++ name
      | none => "=stdin".toUTF8
    loadBytes level shown (chunkOfFile bytes.toList).toByteArray mode globals?

/-- The function of a file, or nothing and why there is none. -/
def loadFile (level : Nat) (args : Args) : Action (List Value) := do
  let name? ← args.name? 1
  let mode ← args.bytesOr 2 "bt".toUTF8
  match ← loadNamed level name? mode (given? args 3) with
  | .error message => return [.nil, .string message]
  | .ok f => return [f]

/-- Calls the function of a file. -/
def doFile (level : Nat) (args : Args) : Action (List Value) := do
  match ← loadNamed level (← args.name? 1) "bt".toUTF8 none with
  | .error message => Action.fail (.value (.string message))
  | .ok f => Action.call f []

end VaultConsole.Lua.Library
