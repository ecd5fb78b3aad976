import VaultConsole.Decimal.Rounded

/-!
# Numbers of the language

Integers are 64-bit words in two's complement; floats are kept as their 64 bits, so that equal
representations are equal values. Arithmetic on integers wraps; division and remainder go toward minus
infinity; comparisons between the two kinds are exact.
-/

namespace VaultConsole.Lua

/-! ## Floats by their bits -/

namespace Real

/-- The NaN that an invalid operation produces. -/
def invalid : UInt64 := 0xFFF8000000000000

def isNaN (x : UInt64) : Bool := (x &&& 0x7FFFFFFFFFFFFFFF) > 0x7FF0000000000000

/-- An operation on two floats; a NaN operand is passed on as it is, the first one before the
second. -/
def lift (op : Float → Float → Float) (a b : UInt64) : UInt64 :=
  let r := op (Float.ofBits a) (Float.ofBits b)
  if r.isNaN then if isNaN a then a else if isNaN b then b else invalid
  else r.toBits

/-- A function of one float. -/
def map (f : Float → Float) (a : UInt64) : UInt64 :=
  let r := f (Float.ofBits a)
  if r.isNaN then if isNaN a then a else invalid else r.toBits

def neg (a : UInt64) : UInt64 := a ^^^ 0x8000000000000000

def ofInt (n : Int64) : UInt64 := n.toFloat.toBits

/-- The remainder with the sign of the dividend, exactly. -/
def truncMod (a b : UInt64) : UInt64 :=
  match Decimal.Binary64.ofBits a, Decimal.Binary64.ofBits b with
  | .finite x, .finite y =>
    if y.mantissa = 0 then invalid
    else
      let e := min x.exponent y.exponent
      let r := (x.mantissa * Decimal.twoTo (x.exponent - e).toNat) %
        (y.mantissa * Decimal.twoTo (y.exponent - e).toNat)
      Decimal.Binary64.ofBinary x.negative r e
  | .finite _, .infinite _ => a
  | .nan, _ => a
  | _, .nan => b
  | .infinite _, _ => invalid

def lt (a b : UInt64) : Bool := Float.ofBits a < Float.ofBits b

def le (a b : UInt64) : Bool := Float.ofBits a ≤ Float.ofBits b

def eq (a b : UInt64) : Bool := Float.ofBits a == Float.ofBits b

/-- The remainder with the sign of the divisor. -/
def mod (a b : UInt64) : UInt64 :=
  let m := truncMod a b
  if (lt 0 m && lt b 0) || (lt m 0 && lt 0 b) then lift (· + ·) m b else m

def add : UInt64 → UInt64 → UInt64 := lift (· + ·)

def sub : UInt64 → UInt64 → UInt64 := lift (· - ·)

def mul : UInt64 → UInt64 → UInt64 := lift (· * ·)

def div : UInt64 → UInt64 → UInt64 := lift (· / ·)

def floorDiv (a b : UInt64) : UInt64 := map Float.floor (div a b)

def pow (a b : UInt64) : UInt64 :=
  lift (fun x y => if y == 2 then x * x else Float.pow x y) a b

/-- The integer that a float with an integral value in range stands for. -/
def toInt? (a : UInt64) : Option Int64 :=
  let x := Float.ofBits a
  if x.floor == x && -9223372036854775808.0 ≤ x && x < 9223372036854775808.0 then some x.toInt64
  else none

/-- The greatest integer not above a float, if it is in range. -/
def floorInt? (a : UInt64) : Option Int64 := toInt? (map Float.floor a)

/-- The least integer not below a float, if it is in range. -/
def ceilInt? (a : UInt64) : Option Int64 := toInt? (map Float.ceil a)

/-- Comparison of an integer with a float, exactly. -/
def intLt (i : Int64) (f : UInt64) : Bool :=
  if isNaN f then false
  else match ceilInt? f with
    | some n => i < n
    | none => lt 0 f

def intLe (i : Int64) (f : UInt64) : Bool :=
  if isNaN f then false
  else match floorInt? f with
    | some n => i ≤ n
    | none => lt 0 f

def ltInt (f : UInt64) (i : Int64) : Bool :=
  if isNaN f then false
  else match floorInt? f with
    | some n => n < i
    | none => lt f 0

def leInt (f : UInt64) (i : Int64) : Bool :=
  if isNaN f then false
  else match ceilInt? f with
    | some n => n ≤ i
    | none => lt f 0

end Real

/-! ## Integers -/

namespace Word

/-- Division toward minus infinity, for a divisor that is not zero. -/
def floorDiv (a b : Int64) : Int64 := Int64.ofInt (Int.fdiv a.toInt b.toInt)

/-- The remainder with the sign of the divisor, for a divisor that is not zero. -/
def floorMod (a b : Int64) : Int64 := Int64.ofInt (Int.fmod a.toInt b.toInt)

/-- A shift to the left, or to the right for a negative amount; what leaves the word is lost and zeros
come in. -/
def shiftLeft (a n : Int64) : Int64 :=
  if n ≤ -64 || 64 ≤ n then 0
  else if n < 0 then (a.toUInt64 >>> (-n).toUInt64).toInt64
  else (a.toUInt64 <<< n.toUInt64).toInt64

end Word

/-! ## Numerals -/

/-- A number: an integer or the bits of a float. -/
inductive Number where
  | int (n : Int64)
  | float (bits : UInt64)
  deriving DecidableEq, Repr, Inhabited

namespace Numeral

/-- A blank byte of the language. -/
def isSpace (b : UInt8) : Bool := b == 32 || (9 ≤ b && b ≤ 13)

def isDigit (b : UInt8) : Bool := 48 ≤ b && b ≤ 57

/-- The value of a hexadecimal digit. -/
def hexValue? (b : UInt8) : Option Nat :=
  if isDigit b then some (b.toNat - 48)
  else if 97 ≤ b && b ≤ 102 then some (b.toNat - 87)
  else if 65 ≤ b && b ≤ 70 then some (b.toNat - 55)
  else none

/-- A sign at the start, if there is one. -/
def takeSign : List UInt8 → Bool × List UInt8
  | 45 :: r => (true, r)
  | 43 :: r => (false, r)
  | r => (false, r)

/-- The value of leading digits in a base, their number, and what follows; `value` and `count` stand
for those read before. -/
def takeDigits (base : Nat) : Nat → Nat → List UInt8 → Nat × Nat × List UInt8
  | value, count, [] => (value, count, [])
  | value, count, b :: r =>
    match hexValue? b with
    | some d => if d < base then takeDigits base (value * base + d) (count + 1) r else (value, count, b :: r)
    | none => (value, count, b :: r)

/-- An exponent after its letter: an optional sign and at least one digit. -/
def takeExponent (bs : List UInt8) : Option (Int × List UInt8) :=
  let (negative, r) := takeSign bs
  match takeDigits 10 0 0 r with
  | (_, 0, _) => none
  | (n, _, r) => some (if negative then -n else n, r)

/-- The bits of an unsigned numeral with a point or an exponent, in base ten or sixteen, and what
follows it. -/
def takeFloat (hex negative : Bool) (bs : List UInt8) : Option (UInt64 × List UInt8) :=
  let base := if hex then 16 else 10
  let (whole, n, r) := takeDigits base 0 0 bs
  let (value, places, r) : Nat × Nat × List UInt8 :=
    match r with
    | 46 :: r' =>
      let (v, m, r'') := takeDigits base whole 0 r'
      if n + m = 0 then (0, 0, r) else (v, m, r'')
    | _ => (whole, 0, r)
  if n + places = 0 then none
  else
    let (exponent, r) : Int × List UInt8 :=
      match r with
      | c :: r' =>
        if (if hex then c == 112 || c == 80 else c == 101 || c == 69) then
          match takeExponent r' with
          | some (k, r'') => (k, r'')
          | none => (0, r)
        else (0, r)
      | [] => (0, r)
    if hex then some (Decimal.Binary64.ofBinary negative value (exponent - 4 * places), r)
    else some (Decimal.Binary64.ofDecimal negative value (exponent - places), r)

/-- The integer that the bytes spell: decimal and in range, or hexadecimal and wrapped. -/
def readInt (negative : Bool) (bs : List UInt8) : Option (Int64 × List UInt8) :=
  match bs with
  | 48 :: x :: r =>
    if x == 120 || x == 88 then
      match takeDigits 16 0 0 r with
      | (_, 0, _) => none
      | (v, _, r) => some (Int64.ofInt (if negative then -v else v), r)
    else decimal
  | _ => decimal
where
  decimal : Option (Int64 × List UInt8) :=
    match takeDigits 10 0 0 bs with
    | (_, 0, _) => none
    | (v, _, r) =>
      if v < 0x8000000000000000 || (negative && v = 0x8000000000000000) then
        some (Int64.ofInt (if negative then -v else v), r)
      else none

/-- The number that the bytes spell, blanks around it allowed. -/
def read? (bytes : List UInt8) : Option Number :=
  let (negative, r) := takeSign (bytes.dropWhile isSpace)
  let ends (r : List UInt8) : Bool := r.all isSpace
  let real : Option Number :=
    match r with
    | 48 :: x :: r' =>
      if x == 120 || x == 88 then
        (takeFloat true negative r').bind fun (v, r) => if ends r then some (.float v) else none
      else (takeFloat false negative r).bind fun (v, r) => if ends r then some (.float v) else none
    | _ => (takeFloat false negative r).bind fun (v, r) => if ends r then some (.float v) else none
  match readInt negative r with
  | some (n, r) => if ends r then some (.int n) else real
  | none => real

end Numeral

namespace Number

/-- The text of a float: fourteen significant digits, and `.0` where that looks like an integer. -/
def floatText (bits : UInt64) : String :=
  match Decimal.Binary64.ofBits bits with
  | .nan => if Decimal.Binary64.isNegative bits then "-nan" else "nan"
  | .infinite negative => if negative then "-inf" else "inf"
  | .finite x =>
    let t := Decimal.Rounded.general x.mantissa x.exponent 14 false 'e'
    let t := if t.toList.all Char.isDigit then t ++ ".0" else t
    if x.negative then "-" ++ t else t

/-- The text of a number. -/
def text : Number → String
  | .int n => toString n.toInt
  | .float bits => floatText bits

end Number

end VaultConsole.Lua
