import VaultConsole.Lua.Growth
import VaultConsole.Lua.Parser
import VaultConsole.Lua.Resolve

/-!
# Chunks

A chunk is a source with a name. The name tells how messages show it: after `=` the name itself, after `@`
a file name, and otherwise the first line of the source.
-/

namespace VaultConsole.Lua

namespace Chunk

/-- The room for a name in messages. -/
def displaySize : Nat := 60

/-- How messages show a chunk of a name. -/
def display (name : ByteArray) : ByteArray :=
  let bytes := beforeNul name.toList
  match bytes with
  | 61 :: r => (r.take (displaySize - 1)).toByteArray
  | 64 :: r =>
    if r.length < displaySize then r.toByteArray
    else "...".toUTF8 ++ (r.drop (r.length - (displaySize - 4))).toByteArray
  | _ =>
    let room := displaySize - 15
    let line := bytes.takeWhile (· != 10)
    let shown := if line.length = bytes.length && bytes.length < room then bytes
      else line.take room ++ utf8 "..."
    (utf8 "[string \"" ++ shown ++ utf8 "\"]").toByteArray

/-- The text of a fault in a chunk that is shown under a name. -/
def faultText (shown : ByteArray) : CompileFault → ByteArray
  | .nesting => "C stack overflow".toUTF8
  | .syntaxFault f =>
    shown ++ s!":{f.line}: ".toUTF8 ++ f.message.toByteArray ++
      (match f.near? with
      | some near => " near ".toUTF8 ++ near.toByteArray
      | none => ByteArray.empty)

/-- The function that a source is, or why it is none; `level` is the nesting that is in use already. -/
def compile (level : Nat) (name source : ByteArray) : Except ByteArray Proto :=
  let shown := display name
  match Block.ofSource level source.toList with
  | .ok body => .ok (Proto.ofBlock shown body)
  | .error f => .error (faultText shown f)

/-! ## Functions written out -/

/-- What a written-out function begins with. -/
def dumpHeader : ByteArray :=
  ⟨#[0x1B, 0x4C, 0x75, 0x61, 0x54, 0x00, 0x19, 0x93, 0x0D, 0x0A, 0x1A, 0x0A, 4, 8, 8,
    0x78, 0x56, 0, 0, 0, 0, 0, 0, 0, 0, 0, 0, 0, 0x28, 0x77, 0x40]⟩

/-- Where a written-out function is at fault, for the first byte that differs from the header. -/
def headerFault (i : Nat) : String :=
  if i < 4 then "not a binary chunk"
  else if i < 5 then "version mismatch"
  else if i < 6 then "format mismatch"
  else if i < 12 then "corrupted chunk"
  else if i < 13 then "Instruction size mismatch"
  else if i < 14 then "lua_Integer size mismatch"
  else if i < 15 then "lua_Number size mismatch"
  else if i < 23 then "integer format mismatch"
  else "float format mismatch"

/-- The first position at which bytes differ from the header. -/
def headerMismatch? (bytes : ByteArray) : Option Nat :=
  (List.range dumpHeader.size).find? fun i =>
    i < bytes.size && bytes.get! i != dumpHeader.get! i

/-- The positions up to which the pieces of the header are read at once. -/
def headerPieces : List Nat := [4, 5, 6, 12, 13, 14, 15, 23, 31]

/-- The function that was written out as bytes. -/
def undump (dumped : Array Proto) (name bytes : ByteArray) : Except ByteArray Proto :=
  let shown := match name.toList with
    | 61 :: r | 64 :: r => r.toByteArray
    | 27 :: _ => "binary string".toUTF8
    | r => r.toByteArray
  let bad (message : String) : Except ByteArray Proto :=
    .error (shown ++ s!": bad binary format ({message})".toUTF8)
  let cut := (headerPieces.find? (bytes.size < ·)).isSome
  match headerMismatch? bytes with
  | some i =>
    -- a piece that is not whole is found to be cut first
    let piece := (headerPieces.find? (i < ·)).getD 31
    if bytes.size < piece then bad "truncated chunk" else bad (headerFault i)
  | none =>
    if cut then bad "truncated chunk"
    else
      match (String.fromUTF8? (bytes.extract dumpHeader.size bytes.size)).bind (·.toNat?) with
      | some i =>
        match dumped[i]? with
        | some p => .ok p
        | none => bad "truncated chunk"
      | none => bad "truncated chunk"

/-- The function that bytes are: a source, or a function that was written out. -/
def load (level : Nat) (dumped : Array Proto) (name bytes : ByteArray) (mode : ByteArray) :
    Except ByteArray Proto :=
  let refuse (kind : String) : Except ByteArray Proto :=
    .error (s!"attempt to load a {kind} chunk (mode is '".toUTF8 ++ mode ++ "')".toUTF8)
  if bytes.size > 0 && bytes.get! 0 == 0x1B then
    if mode.toList.contains 98 then undump dumped name bytes else refuse "binary"
  else if mode.toList.contains 116 then compile level name bytes else refuse "text"

end Chunk

namespace Heap

/-- Adds a cell for each variable that a chunk carries along; the first one holds the globals. -/
def newCells (globals : Value) :
    List (CaptureSource × ByteArray) → Heap → Array Captured → Heap × Array Captured
  | [], h, cells => (h, cells)
  | _ :: captures, h, cells =>
    let (h, c) := h.newCell globals
    newCells .nil captures h (cells.push (.cell c))

/-- Adds the function of a chunk, whose globals are in a cell of their own. -/
def newChunk (h : Heap) (p : Proto) (globals : Value) : Heap × Nat :=
  let (h, cells) := newCells globals p.captures h #[]
  h.newClosure ⟨p, cells⟩

theorem grows_newCells (globals : Value) (captures : List (CaptureSource × ByteArray)) (h : Heap)
    (cells : Array Captured) : h.Grows (newCells globals captures h cells).1 := by
  induction captures generalizing globals h cells with
  | nil => exact .refl h
  | cons c captures ih => exact (h.grows_newCell globals).trans (ih _ _ _)

theorem grows_newChunk (h : Heap) (p : Proto) (globals : Value) : h.Grows (h.newChunk p globals).1 :=
  (grows_newCells globals p.captures h #[]).trans (Heap.grows_newClosure _ _)

end Heap

end VaultConsole.Lua
