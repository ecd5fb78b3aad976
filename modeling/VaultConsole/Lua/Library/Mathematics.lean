import VaultConsole.Lua.Library.Arguments

/-!
# Functions on numbers

The generator of random numbers keeps four words; its sequence depends on its seed only.
-/

namespace VaultConsole.Lua

namespace Random

def rotateLeft (x : UInt64) (n : UInt64) : UInt64 := (x <<< n) ||| (x >>> (64 - n))

/-- The next word, and the state after it. -/
def next (s : Random) : UInt64 × Random :=
  let c := s.c ^^^ s.a
  let d := s.d ^^^ s.b
  let result := rotateLeft (s.b * 5) 7 * 9
  (result, ⟨s.a ^^^ d, s.b ^^^ c, c ^^^ (s.b <<< 17), rotateLeft d 45⟩)

/-- The state after `n` words. -/
def skip : Nat → Random → Random
  | 0, s => s
  | n + 1, s => skip n s.next.2

/-- The state for a seed of two words. -/
def ofSeed (m n : UInt64) : Random := skip 16 ⟨m, 0xFF, n, 0⟩

/-- The number from zero to `n` that a word stands for, with further words where it is too large. -/
def project (n mask : UInt64) : Nat → UInt64 → Random → UInt64 × Random
  | 0, x, s => (x % (n + 1), s)
  | fuel + 1, x, s =>
    if x &&& mask > n then
      let (x, s) := s.next
      project n mask fuel x s
    else (x &&& mask, s)

/-- All bits up to the highest one of a word. -/
def maskOf (n : UInt64) : UInt64 :=
  let n := n ||| (n >>> 1)
  let n := n ||| (n >>> 2)
  let n := n ||| (n >>> 4)
  let n := n ||| (n >>> 8)
  let n := n ||| (n >>> 16)
  n ||| (n >>> 32)

end Random

namespace Library

/-- The next random word. -/
def randomWord : Action UInt64 :=
  Action.update (fun h =>
    let (x, s) := h.random.next
    ({ h with random := s }, x)) fun h => { Heap.Grows.refl h with }

/-- A random number: a float below one, or an integer of a range. -/
def random (args : Args) : Action Value := do
  let x ← randomWord
  let range ← match args.length with
    | 0 => pure none
    | 1 => do
      let up ← args.int 1
      pure (some (if up == 0 then none else some ((1 : Int64), up)))
    | 2 => do
      let low ← args.int 1
      pure (some (some (low, ← args.int 2)))
    | _ => Action.failLocated "wrong number of arguments"
  match range with
  -- The 53 highest bits, as a fraction.
  | none => return .float (Real.mul (Real.ofInt (x >>> 11).toInt64) 0x3CA0000000000000)
  | some none => return .int x.toInt64
  | some (some (low, up)) =>
    if low > up then Action.failArgument 1 "interval is empty"
    else
      let n := up.toUInt64 - low.toUInt64
      -- A range of a power of two takes its bits as they are.
      if n &&& (n + 1) == 0 then return .int (low.toUInt64 + (x &&& n)).toInt64
      else
        let y ← Action.update (fun h =>
          let (y, s) := Random.project n (Random.maskOf n) 1000 x h.random
          ({ h with random := s }, y)) fun h => { Heap.Grows.refl h with }
        return .int (low.toUInt64 + y).toInt64

/-- Sets the seed of random numbers, and gives it. -/
def randomseed (args : Args) : Action (List Value) := do
  let (m, n) ← if args.isEmpty then do
      let m ← randomWord
      let n ← randomWord
      pure (m, n)
    else do
      let m ← match ← args.number 1 with
        | .int n => pure n
        | .float b => pure ((Real.toInt? b).getD b.toInt64)
      pure (m.toUInt64, (← args.intOr 2 0).toUInt64)
  Action.change (fun h => { h with random := Random.ofSeed m n }) fun h => { Heap.Grows.refl h with }
  return [.int m.toInt64, .int n.toInt64]

/-- A float as an integer where that is exact. -/
def tidy (bits : UInt64) : Value :=
  match Real.toInt? bits with
  | some n => .int n
  | none => .float bits

/-- The value of the argument that comes before or after all others. -/
def extreme (args : Args) (wins : Number → Number → Bool) : Action Value := do
  let first ← args.number 1
  let (_, best) ← (List.range (args.length - 1)).foldlM (fun (best, v) i => do
    let x ← args.number (i + 2)
    return if wins x best then (x, args.get (i + 2)) else (best, v)) (first, args.get 1)
  return best

/-- A function of one float. -/
def ofFloat (f : Float → Float) (args : Args) : Action (List Value) := do
  return [.float (Real.map f (← args.float 1))]

/-- The ratio of the circumference of a circle to its diameter. -/
def pi : Float := 3.141592653589793

/-- A float as a fraction between a half and one, and a power of two. -/
def fractionAndExponent (bits : UInt64) : UInt64 × Int :=
  match Decimal.Binary64.ofBits bits with
  | .finite x =>
    if x.mantissa = 0 then (bits, 0)
    else
      let width := Nat.log2 x.mantissa + 1
      (Decimal.Binary64.ofBinary x.negative x.mantissa (-(width : Int)), x.exponent + width)
  | _ => (bits, 0)

/-- A float times a power of two. -/
def scaled (bits : UInt64) (n : Int) : UInt64 :=
  match Decimal.Binary64.ofBits bits with
  | .finite x => if x.mantissa = 0 then bits
    else Decimal.Binary64.ofBinary x.negative x.mantissa (x.exponent + max (-5000) (min 5000 n))
  | _ => bits

/-- Carries out a function on numbers. -/
def math (f : MathFunction) (args : Args) : Action (List Value) :=
  match f with
  | .abs => do
    match ← args.number 1 with
    | .int n => return [.int (if n < 0 then -n else n)]
    | .float b => return [.float (b &&& 0x7FFFFFFFFFFFFFFF)]
  | .acos => ofFloat Float.acos args
  | .asin => ofFloat Float.asin args
  | .atan => do
    let y ← args.float 1
    let x ← if args.isNone 2 then pure (Real.ofInt 1) else args.float 2
    return [.float (Real.lift Float.atan2 y x)]
  | .ceil => do
    match ← args.number 1 with
    | .int n => return [.int n]
    | .float b => return [tidy (Real.map Float.ceil b)]
  | .cos => ofFloat Float.cos args
  | .cosh => ofFloat Float.cosh args
  | .deg => ofFloat (fun x => x * (180.0 / pi)) args
  | .exp => ofFloat Float.exp args
  | .floor => do
    match ← args.number 1 with
    | .int n => return [.int n]
    | .float b => return [tidy (Real.map Float.floor b)]
  | .fmod => do
    match ← args.number 1, ← args.number 2 with
    | .int a, .int b =>
      if b == 0 then Action.failArgument 2 "zero"
      else return [.int (Int64.ofInt (Int.tmod a.toInt b.toInt))]
    | a, b => return [.float (Real.truncMod a.toFloat b.toFloat)]
  | .frexp => do
    let (m, e) := fractionAndExponent (← args.float 1)
    return [.float m, .int (Int64.ofInt e)]
  | .ldexp => do
    let x ← args.float 1
    return [.float (scaled x (← args.int 2).toInt)]
  | .log => do
    let x ← args.float 1
    if args.isNone 2 then return [.float (Real.map Float.log x)]
    else
      let b ← args.float 2
      if b == Real.ofInt 2 then return [.float (Real.map Float.log2 x)]
      else if b == Real.ofInt 10 then return [.float (Real.map Float.log10 x)]
      else return [.float (Real.div (Real.map Float.log x) (Real.map Float.log b))]
  | .log10 => ofFloat Float.log10 args
  | .max => do return [← extreme args fun x best => Arithmetic.numberLt best x]
  | .min => do return [← extreme args Arithmetic.numberLt]
  | .modf => do
    match ← args.number 1 with
    | .int n => return [.int n, .float 0]
    | .float b =>
      let whole := if Real.lt b 0 then Real.map Float.ceil b else Real.map Float.floor b
      -- An infinite number has no fraction.
      let fraction := if Real.eq b whole then 0 else Real.sub b whole
      return [.float whole, .float fraction]
  | .pow => do
    let x ← args.float 1
    return [.float (Real.lift Float.pow x (← args.float 2))]
  | .rad => ofFloat (fun x => x * (pi / 180.0)) args
  | .random => do return [← random args]
  | .randomseed => randomseed args
  | .sin => ofFloat Float.sin args
  | .sinh => ofFloat Float.sinh args
  | .sqrt => ofFloat Float.sqrt args
  | .tan => ofFloat Float.tan args
  | .tanh => ofFloat Float.tanh args
  | .tointeger => do
    match (args.get 1).toInt? with
    | some n => return [.int n]
    | none =>
      let _ ← args.any 1
      return [.nil]
  | .type => do
    match ← args.any 1 with
    | .int _ => return [.text "integer"]
    | .float _ => return [.text "float"]
    | _ => return [.nil]
  | .ult => do
    let a ← args.int 1
    return [.bool (a.toUInt64 < (← args.int 2).toUInt64)]

end Library

end VaultConsole.Lua
