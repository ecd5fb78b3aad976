import VaultConsole.Lua.Library.Arguments

/-!
# Binary layouts

A layout is a text of options, each of which says how one value is written as bytes: integers of a size,
floats, strings, and padding up to an alignment.
-/

namespace VaultConsole.Lua

/-- An option of a layout. -/
inductive PackOption where
  | int (signed : Bool)
  | float
  | double
  | chars
  | counted
  | terminated
  | padding
  | align
  | none
  deriving DecidableEq, Repr, Inhabited

/-- The byte order and the greatest alignment in force. -/
structure PackMode where
  little : Bool
  maxAlign : Nat
  deriving Inhabited

namespace Pack

def initialMode : PackMode := ⟨true, 1⟩

/-- The greatest size of an integer. -/
def maxIntSize : Nat := 16

def maxSize : Nat := 2147483647

/-- The digits at the start as a number, as long as it stays small enough, and the bytes after them. -/
def takeNumber : Nat → List UInt8 → Nat × List UInt8
  | n, [] => (n, [])
  | n, b :: r =>
    if b ≥ 48 && b ≤ 57 && n ≤ (maxSize - 9) / 10 then takeNumber (n * 10 + (b.toNat - 48)) r
    else (n, b :: r)

/-- The number at the start, if there is one. -/
def number? (r : List UInt8) : Option Nat × List UInt8 :=
  if r.head?.any fun b => b ≥ 48 && b ≤ 57 then
    let (n, r) := takeNumber 0 r
    (some n, r)
  else (Option.none, r)

/-- The size of an integer at the start, or a default. -/
def size (other : Nat) (r : List UInt8) : Action (Nat × List UInt8) :=
  let (n?, r) := number? r
  let n := n?.getD other
  if n > maxIntSize || n = 0 then
    Action.failLocated s!"integral size ({n}) out of limits [1,{maxIntSize}]"
  else pure (n, r)

/-- An option that begins with a byte: what it is, its size, the mode after it and the bytes after
it. -/
def option (m : PackMode) (b : UInt8) (r : List UInt8) :
    Action (PackOption × Nat × PackMode × List UInt8) :=
  match Char.ofNat b.toNat with
  | 'b' => pure (.int true, 1, m, r)
  | 'B' => pure (.int false, 1, m, r)
  | 'h' => pure (.int true, 2, m, r)
  | 'H' => pure (.int false, 2, m, r)
  | 'l' | 'j' => pure (.int true, 8, m, r)
  | 'L' | 'J' | 'T' => pure (.int false, 8, m, r)
  | 'i' => do
    let (n, r) ← size 4 r
    return (.int true, n, m, r)
  | 'I' => do
    let (n, r) ← size 4 r
    return (.int false, n, m, r)
  | 'f' => pure (.float, 4, m, r)
  | 'n' | 'd' => pure (.double, 8, m, r)
  | 's' => do
    let (n, r) ← size 8 r
    return (.counted, n, m, r)
  | 'c' =>
    match number? r with
    | (some n, r) => pure (.chars, n, m, r)
    | (Option.none, _) => Action.failLocated "missing size for format option 'c'"
  | 'z' => pure (.terminated, 0, m, r)
  | 'x' => pure (.padding, 1, m, r)
  | 'X' => pure (.align, 0, m, r)
  | ' ' => pure (.none, 0, m, r)
  | '<' | '=' => pure (.none, 0, { m with little := true }, r)
  | '>' => pure (.none, 0, { m with little := false }, r)
  | '!' => do
    let (n, r) ← size 8 r
    return (.none, 0, { m with maxAlign := n }, r)
  | _ => Action.fail (.located ("invalid format option '".toUTF8.push b ++ "'".toUTF8))

/-- An option with the bytes of padding that it needs behind `total` bytes. -/
def details (m : PackMode) (total : Nat) (b : UInt8) (r : List UInt8) :
    Action (PackOption × Nat × Nat × PackMode × List UInt8) := do
  let (o, n, m, r) ← option m b r
  -- An alignment is that of the option after it, which is not written itself.
  let (align, m, r) ← if o == .align then
      match r with
      | [] => Action.failArgument 1 "invalid next option for option 'X'"
      | b :: r => do
        let (o, n, m, r) ← option m b r
        if o == .chars || n = 0 then Action.failArgument 1 "invalid next option for option 'X'"
        else pure (n, m, r)
    else pure (n, m, r)
  if align ≤ 1 || o == .chars then return (o, n, 0, m, r)
  else
    let align := min align m.maxAlign
    if align &&& (align - 1) != 0 then
      Action.failArgument 1 "format asks for alignment not power of 2"
    else return (o, n, (align - total % align) % align, m, r)

/-- The bytes of an integer, the lowest first. -/
def intBytes (n : Nat) (value : Int) : List UInt8 :=
  (List.range n).map fun i => UInt8.ofNat ((value.fdiv (Decimal.twoTo (8 * i))).emod 256).toNat

/-- Bytes in the order of a mode. -/
def ordered (m : PackMode) (bs : List UInt8) : List UInt8 := if m.little then bs else bs.reverse

/-- The bytes of one value. -/
def packItem (m : PackMode) (o : PackOption) (n : Nat) (args : Args) (i : Nat) :
    Action (List UInt8) := do
  match o with
  | .int true =>
    let v := (← args.int i).toInt
    -- With eight bytes or more every integer fits.
    if n < 8 && !(-(Decimal.twoTo (8 * n - 1) : Int) ≤ v && v < (Decimal.twoTo (8 * n - 1) : Int)) then
      Action.failArgument i "integer overflow"
    else return ordered m (intBytes n v)
  | .int false =>
    let v := (← args.int i).toUInt64.toNat
    if n < 8 && v ≥ Decimal.twoTo (8 * n) then Action.failArgument i "unsigned overflow"
    else return ordered m (intBytes n v)
  | .float =>
    let x ← args.float i
    return ordered m (intBytes 4 (Float.ofBits x).toFloat32.toBits.toNat)
  | .double => return ordered m (intBytes 8 (← args.float i).toNat)
  | .chars =>
    let s ← args.bytes i
    if s.size > n then Action.failArgument i "string longer than given size"
    else return s.toList ++ List.replicate (n - s.size) 0
  | .counted =>
    let s ← args.bytes i
    if n < 8 && s.size ≥ Decimal.twoTo (8 * n) then
      Action.failArgument i "string length does not fit in given size"
    else return ordered m (intBytes n s.size) ++ s.toList
  | .terminated =>
    let s ← args.bytes i
    if s.toList.contains 0 then Action.failArgument i "string contains zeros"
    else return s.toList ++ [0]
  | .padding => return [0]
  | .align | .none => return []

/-- Whether an option stands for a value. -/
def takesValue : PackOption → Bool
  | .padding | .align | .none => false
  | _ => true

/-- The bytes of the arguments from the `i`-th on; `out` was written before. -/
def packFrom (args : Args) : Nat → PackMode → ByteArray → Nat → List UInt8 → Action ByteArray
  | 0, _, out, _, _ => pure out
  | _ + 1, _, out, _, [] => pure out
  | fuel + 1, m, out, i, b :: r => do
    let (o, n, fill, m, r) ← details m out.size b r
    let bs ← packItem m o n args i
    packFrom args fuel m (out ++ (List.replicate fill 0 ++ bs).toByteArray)
      (if takesValue o then i + 1 else i) r

/-- The arguments in a layout. -/
def pack (args : Args) : Action ByteArray := do
  let f := beforeNul (← args.bytes 1).toList
  packFrom args (f.length + 1) initialMode ByteArray.empty 2 f

/-- The number of bytes of a layout; `total` bytes came before. -/
def sizeFrom : Nat → PackMode → Nat → List UInt8 → Action Nat
  | 0, _, total, _ => pure total
  | _ + 1, _, total, [] => pure total
  | fuel + 1, m, total, b :: r => do
    let (o, n, fill, m, r) ← details m total b r
    if o == .counted || o == .terminated then Action.failArgument 1 "variable-length format"
    if total > maxSize - (n + fill) then Action.failArgument 1 "format result too large"
    sizeFrom fuel m (total + n + fill) r

/-- The number of bytes of a layout. -/
def packSize (args : Args) : Action Nat := do
  let f := beforeNul (← args.bytes 1).toList
  sizeFrom (f.length + 1) initialMode 0 f

/-- The natural number of bytes, the lowest first. -/
def natOfBytes : List UInt8 → Nat
  | [] => 0
  | b :: r => b.toNat + 256 * natOfBytes r

/-- The integer of bytes, the lowest first. -/
def readInt (signed : Bool) (bs : List UInt8) : Action Int64 :=
  let n := bs.length
  let v := natOfBytes (bs.take 8)
  if n < 8 then
    let isNegative := signed && v ≥ Decimal.twoTo (8 * n - 1)
    pure (Int64.ofInt (if isNegative then (v : Int) - Decimal.twoTo (8 * n) else v))
  else
    let i := Int64.ofNat v
    -- Further bytes only repeat the sign.
    let rest : UInt8 := if signed && i < 0 then 255 else 0
    if (bs.drop 8).all (· == rest) then pure i
    else Action.failLocated s!"{n}-byte integer does not fit into Lua Integer"

/-- The value of an option at a position, and the number of bytes after those of the option. -/
def unpackItem (m : PackMode) (o : PackOption) (n : Nat) (data : ByteArray) (pos : Nat) :
    Action (Value × Nat) := do
  let bs := ordered m (data.extract pos (pos + n)).toList
  match o with
  | .int signed => return (.int (← readInt signed bs), 0)
  | .float =>
    return (.float (Float32.ofBits (UInt32.ofNat (natOfBytes bs))).toFloat.toBits, 0)
  | .double => return (.float (UInt64.ofNat (natOfBytes bs)), 0)
  | .chars => return (.string (data.extract pos (pos + n)), 0)
  | .counted =>
    let len := (← readInt false bs).toUInt64.toNat
    if len > data.size - (pos + n) then Action.failArgument 2 "data string too short"
    else return (.string (data.extract (pos + n) (pos + n + len)), len)
  | .terminated =>
    let s := (data.extract pos data.size).toList.takeWhile (· != 0)
    if pos + s.length ≥ data.size then Action.failArgument 2 "unfinished string for format 'z'"
    else return (.string s.toByteArray, s.length + 1)
  | _ => return (.nil, 0)

/-- The values of a layout from a position on, latest first before those read already, and the position
after them. -/
def unpackFrom (data : ByteArray) : Nat → PackMode → List Value → Nat → List UInt8 →
    Action (List Value × Nat)
  | 0, _, read, pos, _ => pure (read, pos)
  | _ + 1, _, read, pos, [] => pure (read, pos)
  | fuel + 1, m, read, pos, b :: r => do
    let (o, n, fill, m, r) ← details m pos b r
    if fill + n > data.size - pos then Action.failArgument 2 "data string too short"
    let pos := pos + fill
    let (v, more) ← unpackItem m o n data pos
    unpackFrom data fuel m (if takesValue o then v :: read else read) (pos + more + n) r

end Pack

end VaultConsole.Lua
