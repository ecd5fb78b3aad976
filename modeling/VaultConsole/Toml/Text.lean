import VaultConsole.Decimal.Numeral

/-!
# Texts in TOML

A text stands between single or double quotes, or between three of either, where it may have several lines.
Only in double quotes a backslash begins an escape. Every reader begins after the opening quotes, and gives
the text and what follows the closing quotes.
-/

namespace VaultConsole.Toml

/-- A character that may stand for itself within a line: none of the control characters but the tab. -/
def isPlain (c : Char) : Bool := c == '\t' || (0x20 ≤ c.toNat && c.toNat != 0x7F)

/-- The blank characters within a line. -/
def isSpace (c : Char) : Bool := c == ' ' || c == '\t'

/-- What follows the blanks. -/
def skipSpace (cs : List Char) : List Char := cs.dropWhile isSpace

/-- What follows the end of a line, if the line ends here. -/
def afterNewline? : List Char → Option (List Char)
  | '\n' :: r => some r
  | '\r' :: '\n' :: r => some r
  | _ => none

/-- The character of a code point, if it has one. -/
def charOf? (n : Nat) : Option Char :=
  if n < 0xD800 ∨ (0xDFFF < n ∧ n < 0x110000) then some (Char.ofNat n) else none

/-- The character that a number of hexadecimal digits stands for. -/
def codePoint? (digits : Nat) (cs : List Char) : Option (Char × List Char) :=
  let ds := cs.take digits
  if ds.length < digits then none
  else ((Decimal.natOfDigits? 16 ds).bind charOf?).map fun c => (c, cs.drop digits)

/-- The character of an escape, whose backslash came before. -/
def escaped? : List Char → Option (Char × List Char)
  | 'b' :: r => some ('\x08', r)
  | 't' :: r => some ('\t', r)
  | 'n' :: r => some ('\n', r)
  | 'f' :: r => some ('\x0c', r)
  | 'r' :: r => some ('\r', r)
  | 'e' :: r => some ('\x1b', r)
  | '"' :: r => some ('"', r)
  | '\\' :: r => some ('\\', r)
  | 'x' :: r => codePoint? 2 r
  | 'u' :: r => codePoint? 4 r
  | 'U' :: r => codePoint? 8 r
  | _ => none

/-- A text as it was read, latest character first, with what follows it. -/
def finished (seen rest : List Char) : Option (String × List Char) := some (String.ofList seen.reverse, rest)

/-- A text in single quotes. -/
def literal (seen : List Char) : List Char → Option (String × List Char)
  | [] => none
  | '\'' :: r => finished seen r
  | c :: r => if isPlain c then literal (c :: seen) r else none

/-- A text in double quotes; every step takes a character at least. -/
def basic (seen : List Char) : Nat → List Char → Option (String × List Char)
  | _, [] => none
  | 0, _ => none
  | _ + 1, '"' :: r => finished seen r
  | n + 1, '\\' :: r =>
    match escaped? r with
    | some (c, r) => basic (c :: seen) n r
    | none => none
  | n + 1, c :: r => if isPlain c then basic (c :: seen) n r else none

/-- A text in three single quotes. Up to two quotes before the closing ones belong to it. -/
def literalLines (seen : List Char) : List Char → Option (String × List Char)
  | [] => none
  | '\'' :: '\'' :: '\'' :: '\'' :: '\'' :: r => finished ('\'' :: '\'' :: seen) r
  | '\'' :: '\'' :: '\'' :: '\'' :: r => finished ('\'' :: seen) r
  | '\'' :: '\'' :: '\'' :: r => finished seen r
  | '\n' :: r => literalLines ('\n' :: seen) r
  | '\r' :: '\n' :: r => literalLines ('\n' :: '\r' :: seen) r
  | c :: r => if isPlain c then literalLines (c :: seen) r else none

/-- What follows blanks and ends of lines. -/
def skipLines : List Char → List Char
  | '\n' :: r => skipLines r
  | '\r' :: '\n' :: r => skipLines r
  | c :: r => if isSpace c then skipLines r else c :: r
  | [] => []

/-- What follows an escaped end of a line, its backslash having come before: with the end of the line all
blanks and ends of lines after it are passed by. -/
def continuation? (cs : List Char) : Option (List Char) := (afterNewline? (skipSpace cs)).map skipLines

/-- A text in three double quotes. Up to two quotes before the closing ones belong to it. -/
def basicLines (seen : List Char) : Nat → List Char → Option (String × List Char)
  | _, [] => none
  | 0, _ => none
  | _ + 1, '"' :: '"' :: '"' :: '"' :: '"' :: r => finished ('"' :: '"' :: seen) r
  | _ + 1, '"' :: '"' :: '"' :: '"' :: r => finished ('"' :: seen) r
  | _ + 1, '"' :: '"' :: '"' :: r => finished seen r
  | n + 1, '\n' :: r => basicLines ('\n' :: seen) n r
  | n + 1, '\r' :: '\n' :: r => basicLines ('\n' :: '\r' :: seen) n r
  | n + 1, '\\' :: r =>
    match continuation? r with
    | some r => basicLines seen n r
    | none =>
      match escaped? r with
      | some (c, r) => basicLines (c :: seen) n r
      | none => none
  | n + 1, c :: r => if isPlain c then basicLines (c :: seen) n r else none

/-- What follows the end of the line with the opening quotes. -/
def skipFirstNewline (cs : List Char) : List Char := (afterNewline? cs).getD cs

/-- A text within one line, at its opening quote. -/
def quotedText? : List Char → Option (String × List Char)
  | '"' :: r => basic [] r.length r
  | '\'' :: r => literal [] r
  | _ => none

/-- A text of any kind, at its opening quotes. -/
def text? : List Char → Option (String × List Char)
  | '"' :: '"' :: '"' :: r =>
    let r := skipFirstNewline r
    basicLines [] r.length r
  | '\'' :: '\'' :: '\'' :: r => literalLines [] (skipFirstNewline r)
  | cs => quotedText? cs

end VaultConsole.Toml
