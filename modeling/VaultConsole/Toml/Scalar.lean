import VaultConsole.Toml.Basic
import VaultConsole.Toml.Text

/-!
# Numbers, truth values and times in TOML

What is not in quotes or brackets is a word, and a word is a number, a truth value, a date, a time, or
nothing. Digits may be set apart by single underscores. Integers are taken up to 128 bits; a number with a
point or an exponent must not be too large for a floating-point number.
-/

namespace VaultConsole.Toml

/-- Digits of a base without the underscores between them; each underscore stands between two digits. -/
def ungrouped? (base : Nat) : List Char → Option (List Char)
  | [] => none
  | [c] => if (Decimal.digitValue? base c).isSome then some [c] else none
  | c :: '_' :: r =>
    if (Decimal.digitValue? base c).isSome then (ungrouped? base r).map (c :: ·) else none
  | c :: r => if (Decimal.digitValue? base c).isSome then (ungrouped? base r).map (c :: ·) else none

/-- Decimal digits without underscores, of which the first is no zero unless it is the only one. -/
def wholeDigits? (cs : List Char) : Option (List Char) :=
  (ungrouped? 10 cs).filter fun ds => ds.head? != some '0' || ds.length == 1

/-- The least integer that is taken, `-2 ^ 127`. -/
def minInteger : Int := -0x80000000000000000000000000000000

/-- The greatest integer that is taken, `2 ^ 128 - 1`. -/
def maxInteger : Int := 0xFFFFFFFFFFFFFFFFFFFFFFFFFFFFFFFF

/-- The integers that are taken. -/
def inRange (n : Int) : Bool := decide (minInteger ≤ n) && decide (n ≤ maxInteger)

/-- An integer in another base than ten. -/
def basedInteger? (base : Nat) (digits : List Char) : Option Int :=
  ((ungrouped? base digits).bind (Decimal.natOfDigits? base)).map Int.ofNat

/-- The integer that a word is. -/
def integer? (word : List Char) : Option Int :=
  match word with
  | '0' :: 'x' :: r => basedInteger? 16 r
  | '0' :: 'o' :: r => basedInteger? 8 r
  | '0' :: 'b' :: r => basedInteger? 2 r
  | cs =>
    let (negative, r) := Decimal.takeSign cs
    ((wholeDigits? r).bind (Decimal.natOfDigits? 10)).map fun n => if negative then -n else n

/-- The digits of an exponent without underscores, with their sign. -/
def exponentDigits? (cs : List Char) : Option (List Char) :=
  match cs with
  | '-' :: r => (ungrouped? 10 r).map ('-' :: ·)
  | '+' :: r => ungrouped? 10 r
  | r => ungrouped? 10 r

/-- A number without underscores that has a point or an exponent. -/
def plainNumber? (cs : List Char) : Option (List Char) := do
  let isMark (c : Char) : Bool := c == '.' || c == 'e' || c == 'E'
  let whole ← wholeDigits? (cs.takeWhile (!isMark ·))
  match cs.dropWhile (!isMark ·) with
  | '.' :: r =>
    let fraction ← ungrouped? 10 (r.takeWhile (!isMark ·))
    match r.dropWhile (!isMark ·) with
    | [] => return whole ++ '.' :: fraction
    | '.' :: _ => none
    | _ :: r => return whole ++ '.' :: fraction ++ 'e' :: (← exponentDigits? r)
  | _ :: r => return whole ++ 'e' :: (← exponentDigits? r)
  | [] => none

/-- The bits of the floating-point number that a word is. -/
def float? (word : List Char) : Option UInt64 :=
  let (negative, r) := Decimal.takeSign word
  let sign : UInt64 := if negative then 0x8000000000000000 else 0
  if r == "inf".toList then some (sign ||| 0x7FF0000000000000)
  else if r == "nan".toList then some (sign ||| 0x7FF8000000000000)
  else do
    let bits ← (plainNumber? r).bind Decimal.floatOf?
    if bits == 0x7FF0000000000000 then none else some (sign ||| bits)

/-! ## Dates and times -/

/-- A number of a fixed count of digits that lies between bounds. -/
def field? (digits low high : Nat) (cs : List Char) : Option (Nat × List Char) :=
  let ds := cs.take digits
  if ds.length < digits then none
  else match Decimal.natOfDigits? 10 ds with
    | some n => if low ≤ n && n ≤ high then some (n, cs.drop digits) else none
    | none => none

/-- What follows a character. -/
def after? (c : Char) : List Char → Option (List Char)
  | d :: r => if c == d then some r else none
  | [] => none

/-- The number of days in a month. -/
def daysIn (year month : Nat) : Nat :=
  if month == 2 then
    if year % 4 == 0 && (year % 100 != 0 || year % 400 == 0) then 29 else 28
  else if month == 4 || month == 6 || month == 9 || month == 11 then 30
  else 31

/-- What follows a date. -/
def afterDate? (cs : List Char) : Option (List Char) := do
  let (year, r) ← field? 4 0 9999 cs
  let (month, r) ← field? 2 1 12 (← after? '-' r)
  let (_, r) ← field? 2 1 (daysIn year month) (← after? '-' r)
  return r

/-- What follows the fraction of a second, if there is one. -/
def afterFraction? : List Char → Option (List Char)
  | '.' :: r => if (r.takeWhile Decimal.isDigit).isEmpty then none else some (r.dropWhile Decimal.isDigit)
  | r => some r

/-- What follows a time of the day; its seconds may be left out. -/
def afterTime? (cs : List Char) : Option (List Char) := do
  let (_, r) ← field? 2 0 23 cs
  let (_, r) ← field? 2 0 59 (← after? ':' r)
  match r with
  | ':' :: r =>
    let (_, r) ← field? 2 0 60 r
    afterFraction? r
  | r => return r

/-- Whether the offset of a time is here, and nothing after it. -/
def isOffset (cs : List Char) : Bool :=
  match cs with
  | [] => true
  | ['Z'] => true
  | ['z'] => true
  | c :: r =>
    (c == '+' || c == '-') &&
      (do
        let (_, r) ← field? 2 0 23 r
        let (_, r) ← field? 2 0 59 (← after? ':' r)
        return r) == some []

/-- Whether a word is a date. -/
def isDate (word : List Char) : Bool := afterDate? word == some []

/-- Whether a word is a date, a time, or both. -/
def isMoment (word : List Char) : Bool :=
  match afterDate? word with
  | some [] => true
  | some (c :: r) => (c == 'T' || c == 't' || c == ' ') && (afterTime? r).any isOffset
  | none => afterTime? word == some []

/-! ## Words -/

/-- The value that a word is. -/
def word? (word : List Char) : Option Toml :=
  if word == "true".toList then some (.boolean true)
  else if word == "false".toList then some (.boolean false)
  else match integer? word with
    | some n => if inRange n then some (.integer n) else none
    | none =>
      match float? word with
      | some bits => some (.float bits)
      | none => if isMoment word then some .moment else none

/-- The characters of words. -/
def isWordChar (c : Char) : Bool :=
  c.isAlphanum || c == '_' || c == '+' || c == '-' || c == '.' || c == ':'

/-- A word at the start of a text; a date takes a time with it that follows after one space. -/
def takeWord (cs : List Char) : List Char × List Char :=
  let first := cs.takeWhile isWordChar
  match cs.dropWhile isWordChar with
  | ' ' :: c :: r =>
    if isDate first && Decimal.isDigit c then
      (first ++ ' ' :: (c :: r).takeWhile isWordChar, (c :: r).dropWhile isWordChar)
    else (first, ' ' :: c :: r)
  | r => (first, r)

end VaultConsole.Toml
