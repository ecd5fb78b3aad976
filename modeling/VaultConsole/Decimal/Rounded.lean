import VaultConsole.Decimal.Shortest

/-!
# Texts with a given number of digits

A positive or zero number `m · 2 ^ e` written with a fixed number of places, with a fixed number of
significant digits, or in hexadecimal. The digits are those of the exact value rounded once, a tie
to the even digit. Signs, infinities and padding are left to the caller.
-/

namespace VaultConsole.Decimal.Rounded

/-- `m · 2 ^ e · 10 ^ k` rounded to a natural number. -/
def units (m : Nat) (e k : Int) : Nat :=
  Binary64.roundDiv (m * twoTo e.toNat * tenTo k.toNat) (twoTo (-e).toNat * tenTo (-k).toNat)

/-- The digits of `n`, at least `width` of them. -/
def padded (width n : Nat) : List Char :=
  let ds := digitsOf n
  List.replicate (width - ds.length) '0' ++ ds

/-- Digits with a point before the last `places` of them; `keepPoint` keeps a point that nothing
follows. -/
def pointed (ds : List Char) (places : Nat) (keepPoint : Bool) : String :=
  let whole := ds.take (ds.length - places)
  let fraction := ds.drop (ds.length - places)
  String.ofList (if fraction.isEmpty && !keepPoint then whole else whole ++ '.' :: fraction)

/-- Positional notation with `places` digits after the point. -/
def fixed (m : Nat) (e : Int) (places : Nat) (keepPoint : Bool) : String :=
  pointed (padded (places + 1) (units m e places)) places keepPoint

/-- The number rounded to `places + 1` significant digits, with the power of ten of the first one. -/
def significant (m : Nat) (e : Int) (places : Nat) : Nat × Int :=
  if m = 0 then (0, 0)
  else
    let top := (Rounding.ofDyadic m e).magnitude
    let d := units m e (places - top)
    if d = tenTo (places + 1) then (tenTo places, top + 1) else (d, top)

/-- An exponent of ten: a sign and at least two digits. -/
def exponentText (letter : Char) (k : Int) : String :=
  String.ofList (letter :: (if k < 0 then '-' else '+') :: padded 2 k.natAbs)

/-- Notation with one digit before the point, `places` after it, and an exponent. -/
def withExponent (m : Nat) (e : Int) (places : Nat) (keepPoint : Bool) (letter : Char) : String :=
  let (d, top) := significant m e places
  pointed (padded (places + 1) d) places keepPoint ++ exponentText letter top

/-- The characters without the zeros at the end of the fraction, and without a bare point. -/
def stripFraction (cs : List Char) : List Char :=
  if cs.contains '.' then
    match cs.reverse.dropWhile (· == '0') with
    | '.' :: r => r.reverse
    | r => r.reverse
  else cs

/-- The shorter of the two notations for `precision` significant digits: positional when the first
digit stands at a power of ten from `-4` to below the precision. Zeros at the end are dropped unless
`keepZeros`. -/
def general (m : Nat) (e : Int) (precision : Nat) (keepZeros : Bool) (letter : Char) : String :=
  let p := max precision 1
  let (d, top) := significant m e (p - 1)
  let tidy (s : String) : String :=
    if keepZeros then s else String.ofList (stripFraction s.toList)
  if -4 ≤ top && top < p then
    tidy (fixed m e ((p : Int) - 1 - top).toNat keepZeros)
  else tidy (pointed (padded p d) (p - 1) keepZeros) ++ exponentText letter top

/-- A hexadecimal digit. -/
def hexDigit (upper : Bool) (n : Nat) : Char :=
  if n < 10 then Char.ofNat (48 + n) else Char.ofNat ((if upper then 55 else 87) + n)

/-- The hexadecimal digits of `n`, at least `width` of them. -/
def hexDigits (upper : Bool) (width n : Nat) : List Char :=
  let ds := (Nat.toDigits 16 n).map fun c =>
    hexDigit upper (if c.toNat ≥ 97 then c.toNat - 87 else c.toNat - 48)
  List.replicate (width - ds.length) '0' ++ ds

/-- Hexadecimal notation with a power of two; without a given number of places, as many as the exact
value needs. -/
def hexadecimal (m : Nat) (e : Int) (places? : Option Nat) (keepPoint upper : Bool) : String :=
  -- a normal number has its mantissa in 53 bits, the first of them before the point
  let normal := m ≥ 0x10000000000000
  let power : Int := if m = 0 then 0 else e + 52
  let (lead, fraction) : Nat × List Char :=
    match places? with
    | none =>
      let ds := hexDigits upper 13 (m % 0x10000000000000)
      (if normal then 1 else 0, (ds.reverse.dropWhile (· == '0')).reverse)
    | some p =>
      if p ≥ 13 then
        (if normal then 1 else 0, hexDigits upper 13 (m % 0x10000000000000) ++ List.replicate (p - 13) '0')
      else
        let r := Binary64.roundDiv m (twoTo (52 - 4 * p))
        (r / twoTo (4 * p), if p = 0 then [] else hexDigits upper p (r % twoTo (4 * p)))
  let point := if fraction.isEmpty && !keepPoint then [] else ['.']
  let sign := if power < 0 then '-' else '+'
  String.ofList ('0' :: (if upper then 'X' else 'x') :: hexDigits upper 1 lead ++ point ++ fraction
    ++ (if upper then 'P' else 'p') :: sign :: digitsOf power.natAbs)

end VaultConsole.Decimal.Rounded
