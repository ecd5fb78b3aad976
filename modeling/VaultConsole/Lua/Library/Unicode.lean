import VaultConsole.Lua.Lexer
import VaultConsole.Lua.Library.Strings

/-!
# Functions on UTF-8 text

Code points are read in the extended form of up to six bytes; strict reading asks in addition that they
are characters.
-/

namespace VaultConsole.Lua.Library

def isContinuation (s : ByteArray) (i : Nat) : Bool := Pattern.byteAt s i &&& 0xC0 == 0x80

/-- The bits of up to `n` continuation bytes from a position on, as long as the first byte, shifted to
the left, asks for them; with it come the number of bytes and the bits of the first byte. -/
def continuations (s : ByteArray) (i : Nat) : Nat → Nat → Nat → Nat → Option (Nat × Nat × Nat)
  | 0, _, _, _ => none
  | fuel + 1, lead, count, value =>
    if lead &&& 0x40 != 0 then
      if isContinuation s (i + count + 1) then
        continuations s i fuel (lead * 2) (count + 1)
          (value * 64 + ((Pattern.byteAt s (i + count + 1)).toNat &&& 0x3F))
      else none
    else some (count, value, lead &&& 0x7F)

/-- The least code point for a number of continuation bytes. -/
def leastCode : Nat → Nat
  | 0 => 0x100000000
  | 1 => 0x80
  | 2 => 0x800
  | 3 => 0x10000
  | 4 => 0x200000
  | _ => 0x4000000

/-- The code point at a position and the position after it. -/
def codeAt? (s : ByteArray) (i : Nat) (lax : Bool) : Option (Nat × Nat) :=
  let c := (Pattern.byteAt s i).toNat
  let found : Option (Nat × Nat) :=
    if c < 0x80 then some (c, i + 1)
    else match continuations s i 8 c 0 0 with
      | none => none
      | some (count, value, lead) =>
        let code := (value ||| (lead * Decimal.twoTo (count * 5))) % 0x100000000
        -- A code point has to be written as shortly as possible.
        if count > 5 || code > 0x7FFFFFFF || code < leastCode count then none
        else some (code, i + count + 1)
  found.bind fun (code, next) =>
    -- Strict reading takes neither surrogates nor what is beyond the last character.
    if !lax && (code > 0x10FFFF || (0xD800 ≤ code && code ≤ 0xDFFF)) then none else some (code, next)

/-- A position counted from one, or from the end if it is negative; zero when it lies before the
start. -/
def textPosition (pos : Int64) (size : Nat) : Int :=
  if 0 ≤ pos then pos.toInt
  else if -pos.toInt > size then 0
  else (size : Int) + pos.toInt + 1

def invalidCode : String := "invalid UTF-8 code"

/-- The number of code points up to a position, or where reading fails. -/
def countCodes (s : ByteArray) (lax : Bool) (stop : Int) : Nat → Nat → Nat → List Value
  | 0, n, _ => [Value.ofNat n]
  | fuel + 1, n, i =>
    if (i : Int) > stop then [Value.ofNat n]
    else match codeAt? s i lax with
      | some (_, next) => countCodes s lax stop fuel (n + 1) next
      | none => [.nil, Value.ofNat (i + 1)]

/-- The code points up to a position, latest first before those read already. -/
def readCodes (s : ByteArray) (lax : Bool) (stop : Nat) : Nat → List Value → Nat → Option (List Value)
  | 0, read, _ => some read
  | fuel + 1, read, i =>
    if i ≥ stop then some read
    else match codeAt? s i lax with
      | some (code, next) => readCodes s lax stop fuel (Value.ofNat code :: read) next
      | none => none

/-- The first position from `i` on that is no continuation. -/
def skipContinuations (s : ByteArray) : Nat → Nat → Nat
  | 0, i => i
  | fuel + 1, i => if isContinuation s i then skipContinuations s fuel (i + 1) else i

/-- The last position up to `i` that is no continuation, or the first one. -/
def skipBack (s : ByteArray) : Nat → Nat
  | 0 => 0
  | i + 1 => if isContinuation s (i + 1) then skipBack s i else i + 1

/-- The position `n` characters back, and the number of those that are missing. -/
def stepBack (s : ByteArray) : Nat → Nat → Nat × Nat
  | 0, i => (0, i)
  | n + 1, i => if i = 0 then (n + 1, 0) else stepBack s n (skipBack s (i - 1))

/-- The position `n` characters on, and the number of those that are missing. -/
def stepOn (s : ByteArray) : Nat → Nat → Nat × Nat
  | 0, i => (0, i)
  | n + 1, i =>
    if i ≥ s.size then (n + 1, i) else stepOn s n (skipContinuations s (s.size + 1) (i + 1))

/-- The position of the `n`-th character from a place. -/
def codeOffset (args : Args) : Action Value := do
  let s ← args.bytes 1
  let n ← args.int 2
  let pos := textPosition (← args.intOr 3 (if n ≥ 0 then 1 else Int64.ofNat (s.size + 1))) s.size
  if pos < 1 || pos - 1 > s.size then Action.failArgument 3 "position out of bounds"
  let i := (pos - 1).toNat
  if n == 0 then return Value.ofNat (skipBack s i + 1)
  else if isContinuation s i then Action.failLocated "initial position is a continuation byte"
  else
    let (missing, i) := if n < 0 then stepBack s n.toInt.natAbs i else stepOn s (n.toNatClampNeg - 1) i
    return if missing = 0 then Value.ofNat (i + 1) else .nil

/-- Carries out a function on UTF-8 text. -/
def utf8 (f : Utf8Function) (args : Args) : Action (List Value) :=
  match f with
  | .char => do
    let pieces ← (List.range args.length).mapM fun i => do
      let code := (← args.int (i + 1)).toUInt64
      if code > 0x7FFFFFFF then Action.failArgument (i + 1) "value out of range"
      else pure (Lexer.encodeExtended code.toNat).toByteArray
    return [.string (Metamethod.join pieces)]
  | .codepoint => do
    let s ← args.bytes 1
    let i ← args.intOr 2 1
    let start := textPosition i s.size
    let stop ← if args.isNone 3 then pure start else do
      pure (textPosition (← args.int 3) s.size)
    if start < 1 then Action.failArgument 2 "out of bounds"
    if stop > s.size then Action.failArgument 3 "out of bounds"
    if start > stop then return []
    match readCodes s (args.get 4).isTruthy stop.toNat (s.size + 1) [] (start - 1).toNat with
    | some codes => return codes.reverse
    | none => Action.failLocated invalidCode
  | .codes => do
    let s ← args.bytes 1
    if isContinuation s 0 then Action.failArgument 1 invalidCode
    return [.builtin (.utf8 (.step (args.get 2).isTruthy)), .string s, .int 0]
  | .len => do
    let s ← args.bytes 1
    let start := textPosition (← args.intOr 2 1) s.size
    let stop := textPosition (← args.intOr 3 (-1)) s.size
    if start < 1 || start - 1 > s.size then Action.failArgument 2 "initial position out of bounds"
    if stop - 1 ≥ s.size then Action.failArgument 3 "final position out of bounds"
    return countCodes s (args.get 4).isTruthy (stop - 1) (s.size + 1) 0 (start - 1).toNat
  | .offset => do return [← codeOffset args]
  | .step lax => do
    let s ← args.bytes 1
    let n := ((args.get 2).toInt?.getD 0).toUInt64.toNat
    let n := if n < s.size then skipContinuations s (s.size + 1) n else n
    if n ≥ s.size then return []
    else
      match codeAt? s n lax with
      | some (code, next) =>
        if isContinuation s next then Action.failLocated invalidCode
        else return [Value.ofNat (n + 1), Value.ofNat code]
      | none => Action.failLocated invalidCode

end VaultConsole.Lua.Library
