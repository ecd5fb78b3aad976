import VaultConsole.Decimal.Power

/-!
# Binary floating-point numbers as exact numbers

A 64-bit pattern is a NaN, an infinity, or the exact number `± mantissa · 2 ^ exponent`. The other
way, `nearest` gives the pattern of the floating-point number closest to a ratio of natural numbers,
where a tie goes to the even mantissa.
-/

namespace VaultConsole.Decimal

/-- A finite floating-point number, exactly. -/
structure Dyadic where
  negative : Bool
  mantissa : Nat
  exponent : Int
  deriving DecidableEq, Repr

/-- What a 64-bit pattern stands for. -/
inductive Binary64 where
  | nan
  | infinite (negative : Bool)
  | finite (x : Dyadic)
  deriving DecidableEq, Repr

namespace Binary64

/-- The sign bit. -/
def isNegative (bits : UInt64) : Bool := bits >>> 63 == 1

/-- The number that a pattern stands for. -/
def ofBits (bits : UInt64) : Binary64 :=
  let negative := isNegative bits
  let e := ((bits >>> 52) &&& 0x7FF).toNat
  let f := (bits &&& 0xFFFFFFFFFFFFF).toNat
  if e = 0x7FF then
    if f = 0 then .infinite negative else .nan
  else if e = 0 then .finite ⟨negative, f, -1074⟩
  else .finite ⟨negative, f + 0x10000000000000, (e : Int) - 1075⟩

/-- The bit of a sign. -/
def signBit (negative : Bool) : UInt64 := if negative then 0x8000000000000000 else 0

/-- The pattern of an infinity. -/
def infinity (negative : Bool) : UInt64 := signBit negative ||| 0x7FF0000000000000

/-- Division rounded to the nearest natural number, a tie to the even one. -/
def roundDiv (num den : Nat) : Nat :=
  let q := num / den
  let r := num % den
  if 2 * r < den then q else if den < 2 * r then q + 1 else q + q % 2

/-- `num / den · 2 ^ (-e)` rounded to a natural number. -/
def scaled (num den : Nat) (e : Int) : Nat :=
  if 0 ≤ e then roundDiv num (den * twoTo e.toNat) else roundDiv (num * twoTo (-e).toNat) den

/-- The pattern of the number nearest to `± num / den`, for a positive `den`. -/
def nearest (negative : Bool) (num den : Nat) : UInt64 :=
  if num = 0 then signBit negative
  else
    -- the exponent at which the quotient has 53 bits, or one more or less
    let guess : Int := (num.log2 : Int) - den.log2 - 52
    let e := max guess (-1074)
    let m := scaled num den e
    -- one step up or down puts the mantissa below `2 ^ 53` and, where it can, at least at `2 ^ 52`
    let e :=
      if m ≥ 0x20000000000000 then e + 1
      else if m < 0x10000000000000 && e > -1074 then e - 1
      else e
    let m := scaled num den e
    let (m, e) := if m ≥ 0x20000000000000 then (m / 2, e + 1) else (m, e)
    if e > 971 then infinity negative
    else if m < 0x10000000000000 then signBit negative ||| UInt64.ofNat m
    else
      signBit negative ||| (UInt64.ofNat (e + 1075).toNat <<< 52) ||| UInt64.ofNat (m - 0x10000000000000)

/-- The pattern of the number nearest to `± digits · 10 ^ exponent`. -/
def ofDecimal (negative : Bool) (digits : Nat) (exponent : Int) : UInt64 :=
  if digits = 0 then signBit negative
  else
    -- beyond these bounds the result is an infinity or a zero whatever the digits are
    let magnitude : Int := (Nat.log2 digits : Int) * 30103 / 100000 + exponent
    if magnitude > 310 then infinity negative
    else if magnitude < -345 then signBit negative
    else if 0 ≤ exponent then nearest negative (digits * tenTo exponent.toNat) 1
    else nearest negative digits (tenTo (-exponent).toNat)

/-- The pattern of the number nearest to `± mantissa · 2 ^ exponent`. -/
def ofBinary (negative : Bool) (mantissa : Nat) (exponent : Int) : UInt64 :=
  if mantissa = 0 then signBit negative
  else
    let magnitude : Int := (Nat.log2 mantissa : Int) + exponent
    if magnitude > 1100 then infinity negative
    else if magnitude < -1200 then signBit negative
    else if 0 ≤ exponent then nearest negative (mantissa * twoTo exponent.toNat) 1
    else nearest negative mantissa (twoTo (-exponent).toNat)

end Binary64

end VaultConsole.Decimal
