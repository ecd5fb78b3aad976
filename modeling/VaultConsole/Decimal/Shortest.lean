import VaultConsole.Decimal.Binary64

/-!
# The shortest decimal that reads back

Among the decimals that round to a given floating-point number, the one with the fewest digits, and
of those the nearest. For each count of digits the two neighbours of the number on the grid
of such decimals are tested exactly; the first grid with a hit wins.
-/

namespace VaultConsole.Decimal

/-- Which of two equally near decimals is taken. -/
inductive Tie where
  /-- The greater one. -/
  | up
  /-- The one with an even last digit. -/
  | even
  deriving DecidableEq, Repr

/-- The decimal `digits · 10 ^ exponent`. -/
structure Scientific where
  digits : Nat
  exponent : Int
  deriving DecidableEq, Repr

/-- The decimal digits of a number, most significant first; zero has one digit. -/
def digitsOf (n : Nat) : List Char := Nat.toDigits 10 n

/-- A positive number and the ends of the interval of reals that round to it, all over one
denominator. -/
structure Rounding where
  low : Nat
  value : Nat
  high : Nat
  denominator : Nat
  /-- Whether the ends of the interval round to the number too. -/
  closed : Bool

namespace Rounding

/-- The interval of reals that round to `m · 2 ^ e`. -/
def ofDyadic (m : Nat) (e : Int) : Rounding :=
  -- Below a power of two the numbers lie twice as close, so that the interval is shorter on that side.
  let low := if m = 0x10000000000000 ∧ -1074 < e then 4 * m - 1 else 4 * m - 2
  let up := twoTo (e - 2).toNat
  ⟨low * up, 4 * m * up, (4 * m + 2) * up, twoTo (2 - e).toNat, m % 2 = 0⟩

/-- The same numbers in units of `10 ^ k`. -/
def scale (r : Rounding) (k : Int) : Rounding :=
  let up := tenTo (-k).toNat
  { r with low := r.low * up, value := r.value * up, high := r.high * up,
           denominator := r.denominator * tenTo k.toNat }

/-- Whether the natural number `c` lies in the interval. -/
def covers (r : Rounding) (c : Nat) : Bool :=
  let x := c * r.denominator
  if r.closed then r.low ≤ x && x ≤ r.high else r.low < x && x < r.high

/-- Whether the value is nearer to the natural number below it than to the one above. -/
def isNearBelow (r : Rounding) (tie : Tie) : Bool :=
  let rest := 2 * (r.value % r.denominator)
  if rest = r.denominator then tie == .even && r.value / r.denominator % 2 == 0
  else rest < r.denominator

/-- The neighbour of the value among the natural numbers that lies in the interval, the nearer one if
both do. -/
def neighbour? (r : Rounding) (tie : Tie) : Option Nat :=
  let q := r.value / r.denominator
  let below := r.covers q && q != 0
  let above := r.covers (q + 1)
  if below && above then some (if r.isNearBelow tie then q else q + 1)
  else if below then some q
  else if above then some (q + 1)
  else none

/-- The power of ten of the first digit of the value. -/
def magnitude (r : Rounding) : Int :=
  -- The quotient 30103 / 100000 is the logarithm of two to base ten, and the guess is off by one at most.
  let guess : Int := ((r.value.log2 : Int) - r.denominator.log2) * 30103 / 100000
  let reaches (k : Int) : Bool := r.denominator * tenTo k.toNat ≤ r.value * tenTo (-k).toNat
  if reaches (guess + 1) then guess + 1 else if reaches guess then guess else guess - 1

/-- The first hit among the grids with `n`, `n + 1`, … digits. -/
def search (r : Rounding) (tie : Tie) (top : Int) : Nat → Nat → Scientific
  | _, 0 => ⟨r.value / r.denominator, 0⟩
  | n, fuel + 1 =>
    let k := top + 1 - n
    match (r.scale k).neighbour? tie with
    | some d => ⟨d, k⟩
    | none => search r tie top (n + 1) fuel

end Rounding

/-- The decimal without zeros at the end of its digits. -/
def Scientific.strip (s : Scientific) : Scientific :=
  let zeros := ((digitsOf s.digits).reverse.takeWhile (· == '0')).length
  if s.digits = 0 then ⟨0, 0⟩ else ⟨s.digits / tenTo zeros, s.exponent + zeros⟩

/-- The shortest decimal that rounds to `m · 2 ^ e`, for a mantissa of at most 53 bits. Seventeen
digits always suffice. -/
def shortest (tie : Tie) (m : Nat) (e : Int) : Scientific :=
  if m = 0 then ⟨0, 0⟩
  else
    let r := Rounding.ofDyadic m e
    (r.search tie r.magnitude 1 18).strip

end VaultConsole.Decimal
