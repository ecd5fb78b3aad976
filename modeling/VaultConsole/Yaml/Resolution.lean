import VaultConsole.Decimal.Numeral
import VaultConsole.Yaml.Basic
import VaultConsole.Yaml.Fault

/-!
# Values of scalars

A plain scalar without a tag is null, a boolean, an integer, a floating-point number or a string, whichever
of them it spells first. A tag of the standard asks for one of them; a quoted scalar is a string.
-/

namespace VaultConsole.Yaml

/-- The spellings of null. -/
def isNullText (s : String) : Bool := ["~", "null", "Null", "NULL"].contains s

/-- The boolean that a text spells. -/
def boolOf? (s : String) : Option Bool :=
  if ["true", "True", "TRUE"].contains s then some true
  else if ["false", "False", "FALSE"].contains s then some false
  else none

/-- The characters without a text at their start, if they begin with it. -/
def dropStart? (start cs : List Char) : Option (List Char) :=
  if start.isPrefixOf cs then some (cs.drop start.length) else none

/-- Whether a text is zeros and further digits, with a sign or without: such a text is no number. -/
def isPadded (cs : List Char) : Bool :=
  let digits := match cs with
    | '-' :: r | '+' :: r => r
    | r => r
  digits.length > 1 && digits.head? == some '0' && digits.all Decimal.isDigit

/-- The prefixes of integers in other bases. -/
def bases : List (List Char × Nat) := [(['0', 'x'], 16), (['0', 'o'], 8), (['0', 'b'], 2)]

/-- The integer that characters without a sign spell. -/
def magnitudeOf? (cs : List Char) : Option Nat :=
  (bases.findSome? fun (start, base) => (dropStart? start cs).bind (Decimal.natOfDigits? base)).orElse
    fun _ => if isPadded cs then none else Decimal.natOfDigits? 10 cs

/-- The integer that a text spells, of any size. -/
def integerOf? (cs : List Char) : Option Int :=
  match cs with
  | '-' :: r => (magnitudeOf? r).map fun n => -(n : Int)
  | '+' :: r => (magnitudeOf? r).map fun n => (n : Int)
  | r => (magnitudeOf? r).map fun n => (n : Int)

/-- What a text is as an integer. -/
inductive IntegerReading where
  | value (n : Int)
  /-- It spells an integer that is out of range. -/
  | outOfRange
  | none
  deriving DecidableEq, Inhabited

/-- The least integer that counts as one, `-2 ^ 127`. -/
def minInteger : Int := -0x80000000000000000000000000000000

/-- The greatest integer that counts as one, `2 ^ 128 - 1`. -/
def maxInteger : Int := 0xFFFFFFFFFFFFFFFFFFFFFFFFFFFFFFFF

/-- What a text is as an integer. Integers take 64 bits, with a sign or without; a text that spells one of
more than 128 bits does not count as one. -/
def readInteger (cs : List Char) : IntegerReading :=
  match integerOf? cs with
  | .none => .none
  | some n =>
    if -0x8000000000000000 ≤ n && n < 0x10000000000000000 then .value n
    else if minInteger ≤ n && n ≤ maxInteger then .outOfRange
    else .none

/-- The floating-point number that a text spells; a number that is too large is none. -/
def floatOf? (cs : List Char) : Option UInt64 :=
  let positive := match cs with
    | '+' :: r => r
    | r => r
  if [".inf", ".Inf", ".INF"].contains (String.ofList positive) then some (Decimal.Binary64.infinity false)
  else if ["-.inf", "-.Inf", "-.INF"].contains (String.ofList cs) then
    some (Decimal.Binary64.infinity true)
  else if [".nan", ".NaN", ".NAN"].contains (String.ofList cs) then some 0x7FF8000000000000
  else if positive.length < cs.length && (positive.head? == some '+' || positive.head? == some '-') then none
  else (Decimal.floatOf? positive).filter fun b =>
    match Decimal.Binary64.ofBits b with
    | .finite _ => true
    | _ => false

/-- The value of a plain scalar. -/
def ofPlain (s : String) : Except Fault Yaml :=
  let cs := s.toList
  if s.isEmpty || isNullText s then .ok .null
  else match boolOf? s with
    | some b => .ok (.bool b)
    | none =>
      match readInteger cs with
      | .value n => .ok (.int n)
      | .outOfRange => .error .scalar
      | .none =>
        match if isPadded cs then none else floatOf? cs with
        | some b => .ok (.float b)
        | none => .ok (.string s)

/-- The start of the tags of the standard. -/
def standardTag (name : String) : String := "tag:yaml.org,2002:" ++ name

/-- Whether a tag is the document's own. -/
def isLocalTag (tag : String) : Bool := tag.toList.head? == some '!'

/-- The value of a scalar with a tag or without. -/
def ofScalar (tag? : Option String) (s : String) (isPlain : Bool) : Except Fault Yaml :=
  let orFault (v? : Option Yaml) : Except Fault Yaml := match v? with
    | some v => .ok v
    | none => .error .scalar
  match tag? with
  | none => if isPlain then ofPlain s else .ok (.string s)
  | some tag =>
    if tag == standardTag "bool" then orFault ((boolOf? s).map .bool)
    else if tag == standardTag "int" then
      match readInteger s.toList with
      | .value n => .ok (.int n)
      | _ => .error .scalar
    else if tag == standardTag "float" then orFault ((floatOf? s.toList).map .float)
    else if tag == standardTag "null" then if isNullText s then .ok .null else .error .scalar
    else .ok (.string s)

end VaultConsole.Yaml
