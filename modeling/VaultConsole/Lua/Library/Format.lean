import VaultConsole.Decimal.Rounded
import VaultConsole.Lua.Library.Arguments
import VaultConsole.Lua.Pattern

/-!
# Formatting

A format is a text with directives: a percent sign, flags, a width, a precision and a letter that says how
an argument is written.
-/

namespace VaultConsole.Lua

/-- How an argument is written. -/
structure Directive where
  left : Bool
  plus : Bool
  space : Bool
  alternate : Bool
  zero : Bool
  width : Nat
  precision? : Option Nat
  deriving Inhabited

namespace Directive

/-- A directive that asks for nothing. -/
def plain : Directive := ⟨false, false, false, false, false, 0, none⟩

/-- The flags at the start, among those allowed, and the bytes after them. -/
def takeFlags (allowed : List UInt8) (d : Directive) : List UInt8 → Directive × List UInt8
  | [] => (d, [])
  | b :: r =>
    if allowed.contains b then
      takeFlags allowed
        { d with
          left := d.left || b == 45, plus := d.plus || b == 43, space := d.space || b == 32
          alternate := d.alternate || b == 35, zero := d.zero || b == 48 } r
    else (d, b :: r)

/-- A number of at most two digits, and the bytes after it. -/
def takeNumber : List UInt8 → Nat × List UInt8
  | a :: b :: r =>
    if Numeral.isDigit a then
      if Numeral.isDigit b then ((a.toNat - 48) * 10 + (b.toNat - 48), r) else (a.toNat - 48, b :: r)
    else (0, a :: b :: r)
  | [a] => if Numeral.isDigit a then (a.toNat - 48, []) else (0, [a])
  | [] => (0, [])

/-- The directive that the bytes before its letter spell, if only the given flags are used and a
precision only where it is allowed. -/
def ofBytes? (flags : String) (withPrecision : Bool) (bytes : List UInt8) : Option Directive :=
  let (d, r) := takeFlags flags.toUTF8.toList plain bytes
  let (d, r) :=
    -- A zero here is a flag that is not allowed.
    if r.head? == some 48 then (d, r)
    else
      let (width, r) := takeNumber r
      let d := { d with width }
      match r with
      | 46 :: r' =>
        if withPrecision then
          let (p, r) := takeNumber r'
          ({ d with precision? := some p }, r)
        else (d, r)
      | _ => (d, r)
  if r.isEmpty then some d else none

/-- A text of at least the width; zeros go between its head and the rest where the flag asks for them
and `zeros` allows it. -/
def pad (d : Directive) (zeros : Bool) (head body : List Char) : List Char :=
  let fill := d.width - (head.length + body.length)
  if d.left then head ++ body ++ List.replicate fill ' '
  else if d.zero && zeros then head ++ List.replicate fill '0' ++ body
  else List.replicate fill ' ' ++ head ++ body

/-- The sign of a number. -/
def sign (d : Directive) (negative : Bool) : List Char :=
  if negative then ['-'] else if d.plus then ['+'] else if d.space then [' '] else []

/-- The digits of an integer, as many as the precision asks for. -/
def integerDigits (d : Directive) (digits : List Char) : List Char :=
  match d.precision? with
  | some p =>
    -- A zero of no digits is nothing.
    if p = 0 && digits == ['0'] then [] else List.replicate (p - digits.length) '0' ++ digits
  | none => digits

/-- An integer in decimal. -/
def decimal (d : Directive) (n : Int64) : List Char :=
  -- With a precision, the flag for zeros does not count.
  d.pad d.precision?.isNone (d.sign (n < 0)) (d.integerDigits (Nat.toDigits 10 n.toInt.natAbs))

/-- A word in decimal, octal or hexadecimal. -/
def word (d : Directive) (letter : Char) (n : UInt64) : List Char :=
  match letter with
  | 'o' =>
    let ds := d.integerDigits (Nat.toDigits 8 n.toNat)
    d.pad d.precision?.isNone [] (if d.alternate && ds.head? != some '0' then '0' :: ds else ds)
  | 'u' => d.pad d.precision?.isNone [] (d.integerDigits (Nat.toDigits 10 n.toNat))
  | _ =>
    let ds := Decimal.Rounded.hexDigits (letter == 'X') 1 n.toNat
    d.pad d.precision?.isNone (if d.alternate && n != 0 then ['0', letter] else []) (d.integerDigits ds)

/-- A float in the notation of a letter. -/
def float (d : Directive) (letter : Char) (bits : UInt64) : List Char :=
  let upper := letter.isUpper
  let cased (s : String) : List Char := if upper then s.toUpper.toList else s.toList
  match Decimal.Binary64.ofBits bits with
  | .nan => d.pad false (d.sign (Decimal.Binary64.isNegative bits)) (cased "nan")
  | .infinite negative => d.pad false (d.sign negative) (cased "inf")
  | .finite x =>
    let places := d.precision?.getD 6
    match letter.toLower with
    | 'a' =>
      let t := (Decimal.Rounded.hexadecimal x.mantissa x.exponent d.precision? d.alternate upper).toList
      d.pad true (d.sign x.negative ++ t.take 2) (t.drop 2)
    | 'f' =>
      d.pad true (d.sign x.negative)
        (Decimal.Rounded.fixed x.mantissa x.exponent places d.alternate).toList
    | 'e' =>
      d.pad true (d.sign x.negative)
        (Decimal.Rounded.withExponent x.mantissa x.exponent places d.alternate
          (if upper then 'E' else 'e')).toList
    | _ =>
      d.pad true (d.sign x.negative)
        (Decimal.Rounded.general x.mantissa x.exponent places d.alternate
          (if upper then 'E' else 'e')).toList

/-- Bytes cut to the precision and filled to the width. -/
def bytes (d : Directive) (s : List UInt8) : List UInt8 :=
  let s := match d.precision? with
    | some p => s.take p
    | none => s
  let fill := List.replicate (d.width - s.length) 32
  if d.left then s ++ fill else fill ++ s

end Directive

namespace Format

/-- A string as a literal of the language. -/
def quotedBytes : List UInt8 → List UInt8
  | [] => [34]
  | b :: r =>
    if b == 34 || b == 92 || b == 10 then 92 :: b :: quotedBytes r
    else if b < 32 || b == 127 then
      let digits := Nat.toDigits 10 b.toNat
      -- A digit after it would be taken for one of the escape.
      let digits := if r.head?.any Numeral.isDigit
        then List.replicate (3 - digits.length) '0' ++ digits else digits
      92 :: (digits.map fun c => UInt8.ofNat c.toNat) ++ quotedBytes r
    else b :: quotedBytes r

/-- A value as a literal of the language. -/
def literal (args : Args) (n : Nat) : Action ByteArray :=
  match args.get n with
  | .string s => pure (34 :: quotedBytes s.toList).toByteArray
  | .float b =>
    let t := match Decimal.Binary64.ofBits b with
      | .nan => "(0/0)"
      | .infinite negative => if negative then "-1e9999" else "1e9999"
      | .finite _ => String.ofList (Directive.plain.float 'a' b)
    pure t.toUTF8
  | .int n =>
    pure (if n == Int64.minValue then "0x8000000000000000" else toString n.toInt).toUTF8
  | .nil => pure "nil".toUTF8
  | .bool b => pure (if b then "true" else "false").toUTF8
  | _ => Action.failArgument n "value has no literal form"

/-- The directive of a form. -/
def directive (form : List UInt8) (flags : String) (withPrecision : Bool) : Action Directive :=
  match Directive.ofBytes? flags withPrecision ((form.drop 1).dropLast) with
  | some d => pure d
  | none =>
    Action.fail (.located ("invalid conversion specification: '".toUTF8
      ++ (beforeNul form).toByteArray ++ "'".toUTF8))

def asciiBytes (cs : List Char) : ByteArray := (String.ofList cs).toUTF8

/-- The text of an argument by a form: a percent sign, modifiers and a letter. -/
def item (form : List UInt8) (args : Args) (n : Nat) : Action ByteArray := do
  let letter := Char.ofNat (form.getLastD 0).toNat
  match letter with
  | 'c' =>
    let d ← directive form "-" false
    return (d.bytes [UInt8.ofInt (← args.int n).toInt]).toByteArray
  | 'd' | 'i' =>
    let i ← args.int n
    return asciiBytes ((← directive form "-+ 0" true).decimal i)
  | 'u' =>
    let i ← args.int n
    return asciiBytes ((← directive form "-0" true).word 'u' i.toUInt64)
  | 'o' | 'x' | 'X' =>
    let i ← args.int n
    return asciiBytes ((← directive form "-#0" true).word letter i.toUInt64)
  | 'a' | 'A' =>
    let d ← directive form "-+ #0" true
    return asciiBytes (d.float letter (← args.float n))
  | 'f' | 'e' | 'E' | 'g' | 'G' =>
    let x ← args.float n
    return asciiBytes ((← directive form "-+ #0" true).float letter x)
  | 'p' =>
    let d ← directive form "-" false
    let v := args.get n
    let t := if v.address = 0 then "(null)" else Metamethod.addressText v
    return (d.bytes t.toUTF8.toList).toByteArray
  | 'q' =>
    if form.length > 2 then Action.failLocated "specifier '%q' cannot have modifiers"
    literal args n
  | 's' =>
    let s ← Metamethod.toText (args.get n)
    if form.length = 2 then return s
    else
      let bs := s.toList
      if bs.contains 0 then Action.failArgument n "string contains zeros"
      let d ← directive form "-" true
      -- A long text is not filled.
      if d.precision?.isNone && bs.length ≥ 100 then return s else return (d.bytes bs).toByteArray
  | _ =>
    Action.fail (.located ("invalid conversion '".toUTF8 ++ (beforeNul form).toByteArray
      ++ "' to 'format'".toUTF8))

/-- Whether a byte can stand between the percent sign and the letter. -/
def isModifier (b : UInt8) : Bool := "-+ #0123456789.".toUTF8.toList.contains b

/-- The format with its directives replaced by the arguments after the `n`-th; `out` was written
before. -/
def formatFrom (args : Args) : Nat → ByteArray → Nat → List UInt8 → Action ByteArray
  | 0, out, _, _ => pure out
  | _ + 1, out, _, [] => pure out
  | fuel + 1, out, n, b :: r =>
    if b != 37 then formatFrom args fuel (out.push b) n r
    else if r.head? == some 37 then formatFrom args fuel (out.push 37) n (r.drop 1)
    else if n + 1 > args.length then Action.failArgument (n + 1) "no value"
    else
      let modifiers := r.takeWhile isModifier
      let rest := r.dropWhile isModifier
      if modifiers.length ≥ 21 then Action.failLocated "invalid format string to 'format'"
      else do
        let form := 37 :: modifiers ++ [rest.headD 0]
        let t ← item form args (n + 1)
        Action.checkSize (out.size + t.size)
        formatFrom args fuel (out ++ t) (n + 1) (rest.drop 1)

/-- The text that a format and arguments give. -/
def format (args : Args) : Action ByteArray := do
  let f ← args.bytes 1
  formatFrom args (f.size + 1) ByteArray.empty 1 f.toList

end Format

end VaultConsole.Lua
