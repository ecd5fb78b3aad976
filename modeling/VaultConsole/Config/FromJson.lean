import VaultConsole.Config.Setting
import VaultConsole.Decimal.Numeral

/-!
# Settings in JSON

A text in JSON as a setting. Escapes of surrogates that make up no pair are passed by as long as nobody asks
for the text that they are in: such a text is a value of no use, and such a key is none.
-/

namespace VaultConsole.Setting

/-- The rules of JSON: a list has no further items, and `null` has no content. -/
def json : Dialect where
  closedLists := true
  isUnit
    | .nothing => true
    | _ => false

namespace Json

/-- The blank characters. -/
def isSpace (c : Char) : Bool := c == ' ' || c == '\n' || c == '\t' || c == '\r'

/-- What follows the blanks. -/
def skip (cs : List Char) : List Char := cs.dropWhile isSpace

/-! ## Texts -/

/-- The characters of code points, where a high surrogate and the low one after it are one character. -/
def joined? : List Nat → Option (List Char)
  | [] => some []
  | [a] => if a < 0xD800 ∨ 0xDFFF < a then some [Char.ofNat a] else none
  | a :: b :: r =>
    if a < 0xD800 ∨ 0xDFFF < a then (joined? (b :: r)).map (Char.ofNat a :: ·)
    -- A high surrogate takes the low one after it along; any other surrogate stands alone.
    else if a < 0xDC00 ∧ 0xDC00 ≤ b ∧ b < 0xE000 then
      (joined? r).map (Char.ofNat (0x10000 + (a - 0xD800) * 0x400 + (b - 0xDC00)) :: ·)
    else none

/-- The code point of an escape, whose backslash came before. -/
def escaped? : List Char → Option (Nat × List Char)
  | '"' :: r => some (0x22, r)
  | '\\' :: r => some (0x5C, r)
  | '/' :: r => some (0x2F, r)
  | 'b' :: r => some (8, r)
  | 'f' :: r => some (12, r)
  | 'n' :: r => some (10, r)
  | 'r' :: r => some (13, r)
  | 't' :: r => some (9, r)
  | 'u' :: a :: b :: c :: d :: r => (Decimal.natOfDigits? 16 [a, b, c, d]).map fun n => (n, r)
  | _ => none

/-- The code points up to the closing quote; those that came before are the latest first, and every step
takes a character at least. -/
def codePoints? (seen : List Nat) : Nat → List Char → Option (List Nat × List Char)
  | _, [] => none
  | 0, _ => none
  | _ + 1, '"' :: r => some (seen.reverse, r)
  | n + 1, '\\' :: r =>
    match escaped? r with
    | some (c, r) => codePoints? (c :: seen) n r
    | none => none
  | n + 1, c :: r => if c.toNat < 0x20 then none else codePoints? (c.toNat :: seen) n r

/-- A text after its opening quote; none if it holds a surrogate on its own. -/
def text? (cs : List Char) : Option (Option String × List Char) :=
  (codePoints? [] cs.length cs).map fun (points, r) => ((joined? points).map String.ofList, r)

/-! ## Numbers -/

/-- What follows digits, of which there is at least one. -/
def afterDigits? (cs : List Char) : Option (List Char) :=
  if (cs.takeWhile Decimal.isDigit).isEmpty then none else some (cs.dropWhile Decimal.isDigit)

/-- What follows the fraction of a number, if there is one. -/
def afterFraction? : List Char → Option (List Char)
  | '.' :: r => afterDigits? r
  | r => some r

/-- What follows the exponent of a number, if there is one. -/
def afterExponent? : List Char → Option (List Char)
  | c :: r => if c == 'e' || c == 'E' then afterDigits? (Decimal.takeSign r).2 else some (c :: r)
  | [] => some []

/-- A number without its sign: the digits before the point, and what follows the number. -/
def number? (cs : List Char) : Option (List Char × Bool × List Char) :=
  -- A zero at the start is the whole part by itself: digits after it are left over.
  let whole := match cs with
    | '0' :: _ => ['0']
    | cs => cs.takeWhile Decimal.isDigit
  if whole.isEmpty then none
  else
    let r := cs.drop whole.length
    match (afterFraction? r).bind afterExponent? with
    | some after => some (whole, after.length == r.length, after)
    | none => none

/-- A number: one that has no sign, no point and no exponent is natural. -/
def numeral? (cs : List Char) : Option (Setting × List Char) :=
  match cs with
  | '-' :: r => (number? r).map fun (_, _, r) => (.other, r)
  | cs => (number? cs).map fun (whole, isNatural, r) =>
    match Decimal.natOfDigits? 10 whole with
    | some n => (if isNatural then .natural n else .other, r)
    | none => (.other, r)

/-! ## Values -/

/-- What follows a word. -/
def word? (word : List Char) (v : Setting) (cs : List Char) : Option (Setting × List Char) :=
  if word.isPrefixOf cs then some (v, cs.drop word.length) else none

mutual

/-- A value; every step takes a character at least. -/
def value? : Nat → List Char → Option (Setting × List Char)
  | 0, _ => none
  | n + 1, cs =>
    match cs with
    | '"' :: r => (text? r).map fun (s?, r) =>
      (match s? with
        | some s => .text s
        | none => .other, r)
    | '[' :: r =>
      match skip r with
      | ']' :: r => some (.list [], r)
      | r => items? n [] r
    | '\x7b' :: r =>
      match skip r with
      | '\x7d' :: r => some (.table [], r)
      | r => entries? n [] r
    | 'n' :: _ => word? "null".toList .nothing cs
    | 't' :: _ => word? "true".toList .other cs
    | 'f' :: _ => word? "false".toList .other cs
    -- What begins like none of these is a number or no value.
    | cs => numeral? cs

/-- The items of a list; those that came before are the latest first. -/
def items? : Nat → List Setting → List Char → Option (Setting × List Char)
  | 0, _, _ => none
  | n + 1, seen, cs => do
    let (v, r) ← value? n (skip cs)
    match skip r with
    | ',' :: r => items? n (v :: seen) r
    | ']' :: r => return (.list (v :: seen).reverse, r)
    | _ => none

/-- The entries of a table; those that came before are the latest first. -/
def entries? : Nat → List (Option String × Setting) → List Char → Option (Setting × List Char)
  | 0, _, _ => none
  | n + 1, seen, cs => do
    match skip cs with
    | '"' :: r =>
      let (key?, r) ← text? r
      match skip r with
      | ':' :: r =>
        let (v, r) ← value? n (skip r)
        match skip r with
        | ',' :: r => entries? n ((key?, v) :: seen) r
        | '\x7d' :: r => return (.table ((key?, v) :: seen).reverse, r)
        | _ => none
      | _ => none
    | _ => none

end

end Json

/-- The setting that a text is, with nothing but blanks around it. -/
def readJson? (text : String) : Option Setting := do
  let cs := Json.skip text.toList
  let (v, r) ← Json.value? (2 * cs.length + 1) cs
  if (Json.skip r).isEmpty then return v else none

end VaultConsole.Setting
