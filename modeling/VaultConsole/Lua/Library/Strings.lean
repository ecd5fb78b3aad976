import VaultConsole.Lua.Chunk
import VaultConsole.Lua.Library.Format
import VaultConsole.Lua.Library.Pack

/-!
# Functions on strings

Positions count from one, and from the end when they are negative.
-/

namespace VaultConsole.Lua.Library

/-- The longest string that repetition makes. -/
def maxString : Nat := 0x7FFFFFFF

/-- A start position counted from one; below the first byte it is the first one. -/
def startPosition (pos : Int64) (size : Nat) : Nat :=
  if 0 < pos then pos.toNatClampNeg
  else if pos == 0 then 1
  else if pos.toInt < -(size : Int) then 1
  else ((size : Int) + pos.toInt + 1).toNat

/-- An end position counted from one; behind the last byte it is the last one. -/
def endPosition (pos : Int64) (size : Nat) : Nat :=
  if pos.toInt > size then size
  else if 0 ≤ pos then pos.toNatClampNeg
  else if pos.toInt < -(size : Int) then 0
  else ((size : Int) + pos.toInt + 1).toNat

/-- A pattern that cannot be matched fails. -/
def matching (r : Except PatternFault α) : Action α :=
  match r with
  | .ok a => pure a
  | .error e => Action.failLocated e.message

/-- A captured piece as a value. -/
def pieceValue : Pattern.Piece → Value
  | .bytes s => .string s
  | .position n => Value.ofNat n

/-- The captures of a match as values. -/
def captureValues (m : Pattern.Match) (subject : ByteArray) (whole : Bool) : Action (List Value) := do
  return (← matching (m.pieces subject whole)).map pieceValue

/-- Looks for a pattern in a string; `places` asks for the place of the match too. -/
def find (args : Args) (places : Bool) : Action (List Value) := do
  let s ← args.bytes 1
  let p ← args.bytes 2
  let init := startPosition (← args.intOr 3 1) s.size - 1
  if init > s.size then return [.nil]
  -- A pattern without special bytes is looked for as it is.
  else if places && ((args.get 4).isTruthy || Pattern.isPlain p) then
    match Pattern.findPlain s p (s.size + 2) init with
    | some i => return [Value.ofNat (i + 1), Value.ofNat (i + p.size)]
    | none => return [.nil]
  else
    match ← matching (Pattern.find s p init) with
    | none => return [.nil]
    | some m =>
      if places then
        return Value.ofNat (m.start + 1) :: Value.ofNat m.stop :: (← captureValues m s false)
      else captureValues m s true

/-- The next match of a search. -/
def nextMatch (r : Nat) : Action (List Value) := do
  let m ← Action.inspect fun h => h.matchers.getD r default
  let rec go : Nat → Nat → Except PatternFault (Option Pattern.Match)
    | 0, _ => .ok none
    | fuel + 1, s => do
      if s > m.subject.size then return none
      else
        match ← Pattern.matchAt m.subject m.pattern s 0 with
        -- A match that ends where the last one did is empty, and is passed over.
        | some found => if some found.stop == m.lastEnd? then go fuel (s + 1) else return some found
        | none => go fuel (s + 1)
  match ← matching (go (m.subject.size + 2) m.start) with
  | none => return []
  | some found =>
    Action.change (fun h => { h with
      matchers := h.matchers.setIfInBounds r
        { m with start := found.stop, lastEnd? := some found.stop } }) fun h => { Heap.Grows.refl h with }
    captureValues found m.subject true

/-- The bytes that a replacement text gives for a match; `out` was written before. -/
def expand (m : Pattern.Match) (subject : ByteArray) (out : ByteArray) : List UInt8 → Action ByteArray
  | [] => pure out
  | 37 :: 37 :: r => expand m subject (out.push 37) r
  | 37 :: 48 :: r => expand m subject (out ++ Pattern.slice subject m.start m.stop) r
  | 37 :: b :: r =>
    if Numeral.isDigit b then do
      match ← matching (m.capture subject (b.toNat - 49)) with
      | .bytes s => expand m subject (out ++ s) r
      | .position n => expand m subject (out ++ (toString n).toUTF8) r
    else Action.failLocated "invalid use of '%' in replacement string"
  | [37] => Action.failLocated "invalid use of '%' in replacement string"
  | b :: r => expand m subject (out.push b) r

/-- What a match is replaced by, or nothing if it is kept. -/
def replacement (m : Pattern.Match) (subject : ByteArray) (substitute : Value) (template : List UInt8) :
    Action (Option ByteArray) := do
  let result ← match substitute with
    | .table _ =>
      Metamethod.index substitute (pieceValue (← matching (m.capture subject 0)))
    | .string _ | .int _ | .float _ => do
      return some (← expand m subject ByteArray.empty template)
    | f => Action.call1 f (← captureValues m subject true)
  if !result.isTruthy then return none
  else
    match result.toBytes? with
    | some s => return some s
    | none => Action.failLocated s!"invalid replacement value (a {result.type.name})"

/-- The state of a replacement: the bytes written, the place, the last end of a match, the number of
matches and whether anything changed. -/
structure Replacing where
  out : ByteArray
  place : Nat
  lastEnd? : Option Nat
  count : Nat
  changed : Bool

/-- Replaces matches from a place on. -/
def replaceFrom (s p : ByteArray) (substitute : Value) (template : List UInt8) (most : Int) :
    Nat → Replacing → Action Replacing
  | 0, r => pure r
  | fuel + 1, r => do
    if (r.count : Int) ≥ most then return r
    else
      let anchored := Pattern.isAnchored p
      match ← matching (Pattern.matchAt s p r.place (if anchored then 1 else 0)) with
      | some m =>
        -- An empty match right after another is not replaced.
        if some m.stop == r.lastEnd? then skip fuel r anchored
        else
          let new ← replacement m s substitute template
          let out := r.out ++ new.getD (Pattern.slice s m.start m.stop)
          Action.checkSize out.size
          let r := ⟨out, m.stop, some m.stop, r.count + 1, r.changed || new.isSome⟩
          if anchored then return r else replaceFrom s p substitute template most fuel r
      | none => skip fuel r anchored
where
  /-- Keeps one byte and goes on. -/
  skip (fuel : Nat) (r : Replacing) (anchored : Bool) : Action Replacing :=
    if h : r.place < s.size then
      let r := { r with out := r.out.push s[r.place], place := r.place + 1 }
      if anchored then pure r else replaceFrom s p substitute template most fuel r
    else pure r

/-- Replaces the matches of a pattern. -/
def gsub (args : Args) : Action (List Value) := do
  let s ← args.bytes 1
  let p ← args.bytes 2
  let substitute := args.get 3
  let most ← args.intOr 4 (Int64.ofNat (s.size + 1))
  match substitute.type with
  | .number | .string | .function | .table => pure ()
  | _ => args.failType 3 "string/function/table"
  let template := ((substitute.toBytes?).getD ByteArray.empty).toList
  let r ← replaceFrom s p substitute template most.toInt (2 * s.size + 4) ⟨ByteArray.empty, 0, none, 0, false⟩
  if r.changed then
    return [.string (r.out ++ Pattern.slice s r.place s.size), Value.ofNat r.count]
  else return [.string s, Value.ofNat r.count]

/-- Copies of bytes with a separator between, after those already written. -/
def repeatBytes (unit : ByteArray) : Nat → ByteArray → ByteArray
  | 0, out => out
  | n + 1, out => repeatBytes unit n (out ++ unit)

/-- A string repeated. -/
def rep (args : Args) : Action Value := do
  let s ← args.bytes 1
  let n ← args.int 2
  let sep ← args.bytesOr 3 ByteArray.empty
  if n ≤ 0 then return .string ByteArray.empty
  else
    let k := n.toNatClampNeg
    -- The size is looked at before anything is made.
    if s.size + sep.size > maxString / k then Action.failLocated "resulting string too large"
    else
      let total := k * s.size + (k - 1) * sep.size
      Action.checkSize total
      if total = 0 then return .string ByteArray.empty
      else return .string (repeatBytes (s ++ sep) (k - 1) (ByteArray.emptyWithCapacity total) ++ s)

/-- The bytes of a string as integers. -/
def byte (args : Args) : Action (List Value) := do
  let s ← args.bytes 1
  let i ← args.intOr 2 1
  let start := startPosition i s.size
  let stop := endPosition (← args.intOr 3 (Int64.ofNat start)) s.size
  if start > stop then return []
  else if stop - start ≥ 1000000 then Action.failLocated "string slice too long"
  else return (s.extract (start - 1) stop).toList.map fun b => Value.ofNat b.toNat

/-- Bytes that are given as integers. -/
def char (args : Args) : Action Value := do
  let bs ← (List.range args.length).mapM fun i => do
    let c := (← args.int (i + 1)).toUInt64
    if c > 255 then Action.failArgument (i + 1) "value out of range" else pure c.toUInt8
  return .string bs.toByteArray

/-- A function written out as a string. -/
def dump (args : Args) : Action Value := do
  match args.get 1 with
  | .closure r =>
    Action.update (fun h =>
      let n := h.dumped.size
      let p := (h.closures.getD r default).proto
      (h.newDumped p, .string (Chunk.dumpHeader ++ (toString n).toUTF8))) fun h => h.grows_newDumped _
  | .builtin _ | .wrapper _ | .matcher _ => Action.failLocated "unable to dump given function"
  | _ => args.failType 1 "function"

/-- Carries out a function on strings. -/
def string (f : StringFunction) (args : Args) : Action (List Value) :=
  match f with
  | .byte => byte args
  | .char => do return [← char args]
  | .dump => do return [← dump args]
  | .find => find args true
  | .format => do return [.string (← Format.format args)]
  | .gmatch => do
    let s ← args.bytes 1
    let p ← args.bytes 2
    let init := startPosition (← args.intOr 3 1) s.size - 1
    let r ← Action.update (·.newMatcher ⟨s, p, min init (s.size + 1), none⟩) fun h => h.grows_newMatcher _
    return [.matcher r]
  | .gsub => gsub args
  | .len => do return [Value.ofNat (← args.bytes 1).size]
  | .lower => do return [.string ((← args.bytes 1).toList.map Pattern.toLower).toByteArray]
  | .match => find args false
  | .pack => do return [.string (← Pack.pack args)]
  | .packsize => do return [Value.ofNat (← Pack.packSize args)]
  | .rep => do return [← rep args]
  | .reverse => do return [.string (← args.bytes 1).toList.reverse.toByteArray]
  | .sub => do
    let s ← args.bytes 1
    let start := startPosition (← args.int 2) s.size
    let stop := endPosition (← args.intOr 3 (-1)) s.size
    return [.string (if start > stop then ByteArray.empty else s.extract (start - 1) stop)]
  | .unpack => do
    let f := beforeNul (← args.bytes 1).toList
    let data ← args.bytes 2
    let pos := startPosition (← args.intOr 3 1) data.size - 1
    if pos > data.size then Action.failArgument 3 "initial position out of string"
    let (read, pos) ← Pack.unpackFrom data (f.length + 1) Pack.initialMode [] pos f
    return (Value.ofNat (pos + 1) :: read).reverse
  | .upper => do return [.string ((← args.bytes 1).toList.map Pattern.toUpper).toByteArray]

end VaultConsole.Lua.Library
