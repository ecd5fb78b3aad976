import VaultConsole.Decimal.Binary64

/-!
# Reading decimal numerals

A numeral has digits with at most one point among them and may have an exponent. Its value is an integer
times a power of ten, rounded to the nearest floating-point number.
-/

namespace VaultConsole.Decimal

/-- A decimal digit. -/
def isDigit (c : Char) : Bool := '0' ≤ c && c ≤ '9'

/-- The value of a digit of a base up to sixteen. -/
def digitValue? (base : Nat) (c : Char) : Option Nat :=
  let v? : Option Nat :=
    if isDigit c then some (c.toNat - 48)
    else if 'a' ≤ c && c ≤ 'f' then some (c.toNat - 87)
    else if 'A' ≤ c && c ≤ 'F' then some (c.toNat - 55)
    else none
  v?.filter (· < base)

/-- The number that digits of a base make up after a value that was read before. -/
def digitsFrom (base : Nat) (value : Nat) : List Char → Option Nat
  | [] => some value
  | c :: cs => (digitValue? base c).bind fun d => digitsFrom base (value * base + d) cs

/-- The number that digits of a base make up; there has to be one. -/
def natOfDigits? (base : Nat) (cs : List Char) : Option Nat :=
  if cs.isEmpty then none else digitsFrom base 0 cs

/-- A sign at the start, if there is one: whether it is a minus, and what follows. -/
def takeSign : List Char → Bool × List Char
  | '-' :: r => (true, r)
  | '+' :: r => (false, r)
  | r => (false, r)

/-- The power of ten that is written as an exponent: an optional sign and digits. -/
def exponentOf? (cs : List Char) : Option Int :=
  let (negative, r) := takeSign cs
  (natOfDigits? 10 r).map fun n => if negative then -n else n

/-- The bits of the number that characters spell: an optional sign, digits with an optional point of which
at least one is there, and an optional exponent. -/
def floatOf? (cs : List Char) : Option UInt64 :=
  let (negative, r) := takeSign cs
  let whole := r.takeWhile isDigit
  let r := r.dropWhile isDigit
  let (fraction, r) := match r with
    | '.' :: r => (r.takeWhile isDigit, r.dropWhile isDigit)
    | r => ([], r)
  match natOfDigits? 10 (whole ++ fraction) with
  | none => none
  | some n =>
    let read (exponent : Int) : Option UInt64 :=
      some (Binary64.ofDecimal negative n (exponent - fraction.length))
    match r with
    | [] => read 0
    | c :: r => if c = 'e' || c = 'E' then (exponentOf? r).bind read else none

end VaultConsole.Decimal
