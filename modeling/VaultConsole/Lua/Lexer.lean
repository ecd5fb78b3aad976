import VaultConsole.Lua.Token

/-!
# From bytes to tokens

A source is a list of lexemes that ends with `eof`, or with the fault at which reading stops. A fault is
kept in its place and not raised, since a parser may fail before it gets there.
-/

namespace VaultConsole.Lua

/-- What a source reads as: tokens, and the fault that ends them, if any. -/
structure Lexemes where
  lexemes : Array Lexeme
  fault? : Option SyntaxFault
  deriving Inhabited

namespace Lexer

/-- What is left of a source, with the number of the current line. -/
structure Cursor where
  rest : List UInt8
  line : Nat

def isNewline (b : UInt8) : Bool := b == 10 || b == 13

def isLetter (b : UInt8) : Bool :=
  (65 ≤ b && b ≤ 90) || (97 ≤ b && b ≤ 122) || b == 95

def isWordByte (b : UInt8) : Bool := isLetter b || Numeral.isDigit b

/-- The rest after a line break that begins with `b`; two different line-break bytes are one break. -/
def afterNewline (b : UInt8) : List UInt8 → List UInt8
  | c :: r => if isNewline c && c != b then r else c :: r
  | [] => []

/-- A reading step fails with a fault. -/
abbrev Read (α : Type) := Except SyntaxFault α

def fail (line : Nat) (message : String) (near? : Option (List UInt8)) : Read α :=
  .error ⟨line, utf8 message, near?⟩

/-! ## Long brackets -/

/-- The equals signs at the start, and what follows them. -/
def takeEquals : Nat → List UInt8 → Nat × List UInt8
  | n, 61 :: r => takeEquals (n + 1) r
  | n, r => (n, r)

/-- The level of a long bracket after its first byte `bracket`, and what follows its second one. -/
def longBracket? (bracket : UInt8) (bs : List UInt8) : Option (Nat × List UInt8) :=
  match takeEquals 0 bs with
  | (n, b :: r) => if b == bracket then some (n, r) else none
  | (_, []) => none

/-- The content of a long bracket of a level up to its end; `content` was read before, latest
first. -/
def takeLong (level : Nat) : Nat → List UInt8 → Cursor → Option (List UInt8 × Cursor)
  | 0, _, _ => none
  | fuel + 1, content, c =>
    match c.rest with
    | [] => none
    | b :: r =>
      if b == 93 then
        match longBracket? 93 r with
        | some (n, r') =>
          if n = level then some (content.reverse, ⟨r', c.line⟩)
          else takeLong level fuel (b :: content) ⟨r, c.line⟩
        | none => takeLong level fuel (b :: content) ⟨r, c.line⟩
      -- Every line break is the same one byte in the content.
      else if isNewline b then takeLong level fuel (10 :: content) ⟨afterNewline b r, c.line + 1⟩
      else takeLong level fuel (b :: content) ⟨r, c.line⟩

/-- The cursor after a line break, if there is one right at it. -/
def afterBreak (c : Cursor) : Cursor :=
  match c.rest with
  | b :: r => if isNewline b then ⟨afterNewline b r, c.line + 1⟩ else c
  | [] => c

/-- The number of the last line of a source. -/
def endLine (c : Cursor) : Nat :=
  (c.rest.foldl (fun (n, prev) b =>
    if isNewline b then
      if isNewline prev && prev != b then (n, 0) else (n + 1, b)
    else (n, b)) (c.line, (0 : UInt8))).1

/-- A long bracket after its opening; a line break right there is skipped. -/
def readLong (what : String) (level fuel : Nat) (c : Cursor) : Read (List UInt8 × Cursor) :=
  match takeLong level fuel [] (afterBreak c) with
  | some found => .ok found
  | none =>
    fail (endLine (afterBreak c)) s!"unfinished long {what} (starting at line {c.line})"
      (some (utf8 "<eof>"))

/-! ## Quoted strings -/

/-- The UTF-8 form of a number below `2 ^ 31`, in up to six bytes. -/
def encodeExtended (n : Nat) : List UInt8 :=
  if n < 0x80 then [UInt8.ofNat n]
  else
    let count := if n < 0x800 then 1 else if n < 0x10000 then 2 else if n < 0x200000 then 3
      else if n < 0x4000000 then 4 else 5
    -- The first byte has one set bit for each byte, and then the highest bits.
    let lead := (0xFF00 >>> (count + 1)) % 256 + n / Decimal.twoTo (6 * count)
    UInt8.ofNat lead :: (List.range count).map fun i =>
      UInt8.ofNat (0x80 + n / Decimal.twoTo (6 * (count - 1 - i)) % 64)

/-- The text that a message about a bad escape quotes: what was read, with the byte at which reading
stopped. -/
def escapeNear (content escape : List UInt8) (rest : List UInt8) : List UInt8 :=
  quoted (content.reverse ++ escape ++ rest.take 1)

/-- The bytes of an escape after its backslash, and what follows. `content` is quoted in messages. -/
def readEscape (line : Nat) (content : List UInt8) (bs : List UInt8) :
    Read (List UInt8 × List UInt8) :=
  let bad (message : String) (escape rest : List UInt8) : Read (List UInt8 × List UInt8) :=
    fail line message (some (escapeNear content escape rest))
  match bs with
  | 97 :: r => .ok ([7], r)
  | 98 :: r => .ok ([8], r)
  | 102 :: r => .ok ([12], r)
  | 110 :: r => .ok ([10], r)
  | 114 :: r => .ok ([13], r)
  | 116 :: r => .ok ([9], r)
  | 118 :: r => .ok ([11], r)
  | 120 :: r =>
    match r with
    | h :: r1 =>
      match Numeral.hexValue? h with
      | none => bad "hexadecimal digit expected" [92, 120] r
      | some x =>
        match r1 with
        | l :: r2 =>
          match Numeral.hexValue? l with
          | none => bad "hexadecimal digit expected" [92, 120, h] r1
          | some y => .ok ([UInt8.ofNat (x * 16 + y)], r2)
        | [] => bad "hexadecimal digit expected" [92, 120, h] r1
    | [] => bad "hexadecimal digit expected" [92, 120] r
  | 117 :: r =>
    match r with
    | 123 :: r1 =>
      let digits := r1.takeWhile fun b => (Numeral.hexValue? b).isSome
      if digits.isEmpty then bad "hexadecimal digit expected" [92, 117, 123] r1
      else
        -- a further digit is refused once the value no longer fits
        let rec go : Nat → Nat → List UInt8 → Except Nat Nat
          | v, _, [] => .ok v
          | v, k, b :: r =>
            if k > 0 && v > 0x7FFFFFF then .error k
            else go (v * 16 + (Numeral.hexValue? b).getD 0) (k + 1) r
        match go 0 0 digits with
        | .error k =>
          bad "UTF-8 value too large" ([92, 117, 123] ++ digits.take k) (r1.drop k)
        | .ok v =>
          match r1.drop digits.length with
          | 125 :: r2 => .ok (encodeExtended v, r2)
          | r2 => bad "missing '\x7d'" ([92, 117, 123] ++ digits) r2
    | _ => bad "missing '\x7b'" [92, 117] r
  | 92 :: r => .ok ([92], r)
  | 34 :: r => .ok ([34], r)
  | 39 :: r => .ok ([39], r)
  | b :: r =>
    if Numeral.isDigit b then
      let digits := (b :: r).take 3 |>.takeWhile Numeral.isDigit
      let v := digits.foldl (fun v d => v * 10 + (d.toNat - 48)) 0
      let rest := (b :: r).drop digits.length
      if v ≤ 255 then .ok ([UInt8.ofNat v], rest)
      else bad "decimal escape too large" (92 :: digits) rest
    else bad "invalid escape sequence" [92] bs
  | [] => .ok ([], [])

/-- The rest after blanks, with the lines counted. -/
def skipSpace : Nat → Cursor → Cursor
  | 0, c => c
  | fuel + 1, c =>
    match c.rest with
    | b :: r =>
      if isNewline b then skipSpace fuel ⟨afterNewline b r, c.line + 1⟩
      else if Numeral.isSpace b then skipSpace fuel ⟨r, c.line⟩
      else c
    | [] => c

/-- A quoted string up to the closing `quote`; `content` was read before, latest first, and starts with
the opening quote. -/
def readString (quote : UInt8) : Nat → List UInt8 → Cursor → Read (List UInt8 × Cursor)
  | 0, _, c => fail c.line "unfinished string" (some (utf8 "<eof>"))
  | fuel + 1, content, c =>
    match c.rest with
    | [] => fail c.line "unfinished string" (some (utf8 "<eof>"))
    | b :: r =>
      if b == quote then .ok ((b :: content).reverse, ⟨r, c.line⟩)
      else if isNewline b then
        fail c.line "unfinished string" (some (quoted content.reverse))
      else if b == 92 then
        match r with
        -- All blanks after it are left out, line breaks among them.
        | 122 :: r' => readString quote fuel content (skipSpace fuel ⟨r', c.line⟩)
        | n :: r' =>
          if isNewline n then
            readString quote fuel (10 :: content) ⟨afterNewline n r', c.line + 1⟩
          else
            match readEscape c.line content r with
            | .ok (bytes, rest) => readString quote fuel (bytes.reverse ++ content) ⟨rest, c.line⟩
            | .error e => .error e
        | [] => fail c.line "unfinished string" (some (utf8 "<eof>"))
      else readString quote fuel (b :: content) ⟨r, c.line⟩

/-! ## Numerals -/

/-- The bytes that a numeral takes: digits, points and exponents with their signs; `marks` are the
letters of the exponent. -/
def takeNumeral (marks : List UInt8) : Nat → List UInt8 → List UInt8 → List UInt8 × List UInt8
  | 0, taken, r => (taken, r)
  | fuel + 1, taken, r =>
    match r with
    | b :: r' =>
      if marks.contains b then
        match r' with
        | s :: r'' =>
          if s == 43 || s == 45 then takeNumeral marks fuel (s :: b :: taken) r''
          else takeNumeral marks fuel (b :: taken) r'
        | [] => (b :: taken, [])
      else if (Numeral.hexValue? b).isSome || b == 46 then takeNumeral marks fuel (b :: taken) r'
      else (taken, r)
    | [] => (taken, [])

/-- A numeral at the start; a letter right after it makes it malformed. -/
def readNumeral (line : Nat) (bs : List UInt8) : Read (Number × List UInt8 × List UInt8) :=
  let (start, marks, r) : List UInt8 × List UInt8 × List UInt8 :=
    match bs with
    | 48 :: x :: r =>
      if x == 120 || x == 88 then ([x, 48], [112, 80], r) else ([48], [101, 69], x :: r)
    | b :: r => ([b], [101, 69], r)
    | [] => ([], [], [])
  let (taken, r) := takeNumeral marks (r.length + 1) start r
  -- A letter right after it is taken along, and makes it malformed.
  let (taken, r) : List UInt8 × List UInt8 :=
    match r with
    | b :: r' => if isLetter b then (b :: taken, r') else (taken, r)
    | [] => (taken, r)
  let spelling := taken.reverse
  match Numeral.read? spelling with
  | some n => .ok (n, spelling, r)
  | none => fail line "malformed number" (some (quoted spelling))

/-! ## Tokens -/

/-- The mark that begins with a byte before the given rest, and what follows it. -/
def mark? (b : UInt8) (r : List UInt8) : Option (Mark × List UInt8) :=
  match b, r with
  | 43, _ => some (.plus, r)
  | 45, _ => some (.minus, r)
  | 42, _ => some (.star, r)
  | 47, 47 :: r => some (.doubleSlash, r)
  | 47, _ => some (.slash, r)
  | 37, _ => some (.percent, r)
  | 94, _ => some (.caret, r)
  | 35, _ => some (.hash, r)
  | 38, _ => some (.ampersand, r)
  | 126, 61 :: r => some (.notEqual, r)
  | 126, _ => some (.tilde, r)
  | 124, _ => some (.pipe, r)
  | 60, 60 :: r => some (.shiftLeft, r)
  | 60, 61 :: r => some (.lessEqual, r)
  | 60, _ => some (.less, r)
  | 62, 62 :: r => some (.shiftRight, r)
  | 62, 61 :: r => some (.greaterEqual, r)
  | 62, _ => some (.greater, r)
  | 61, 61 :: r => some (.equal, r)
  | 61, _ => some (.assign, r)
  | 40, _ => some (.openParen, r)
  | 41, _ => some (.closeParen, r)
  | 123, _ => some (.openBrace, r)
  | 125, _ => some (.closeBrace, r)
  | 91, _ => some (.openBracket, r)
  | 93, _ => some (.closeBracket, r)
  | 58, 58 :: r => some (.doubleColon, r)
  | 58, _ => some (.colon, r)
  | 59, _ => some (.semicolon, r)
  | 44, _ => some (.comma, r)
  | 46, 46 :: 46 :: r => some (.dots, r)
  | 46, 46 :: r => some (.concat, r)
  | 46, _ => some (.dot, r)
  | _, _ => none

/-- The cursor at the next byte that is neither blank nor in a comment. -/
def skip : Nat → Cursor → Read Cursor
  | 0, c => .ok c
  | fuel + 1, c =>
    match c.rest with
    | 45 :: 45 :: r =>
      match r with
      -- A long bracket right after the dashes begins a comment of several lines.
      | 91 :: r1 =>
        match longBracket? 91 r1 with
        | some (level, r2) =>
          match readLong "comment" level (fuel + 1) ⟨r2, c.line⟩ with
          | .ok (_, c') => skip fuel c'
          | .error e => .error e
        | none => skip fuel ⟨r.dropWhile (!isNewline ·), c.line⟩
      | _ => skip fuel ⟨r.dropWhile (!isNewline ·), c.line⟩
    | b :: r =>
      if isNewline b then skip fuel ⟨afterNewline b r, c.line + 1⟩
      else if Numeral.isSpace b then skip fuel ⟨r, c.line⟩
      else .ok c
    | [] => .ok c

/-- The token at the cursor, and the cursor after it. The fuel exceeds the number of bytes left, here
and in `skip` and `tokens`. -/
def token (fuel : Nat) (c : Cursor) : Read (Lexeme × Cursor) :=
  match c.rest with
  | [] => .ok (⟨.eof, c.line, []⟩, c)
  | b :: r =>
    if isLetter b then
      let word := c.rest.takeWhile isWordByte
      let rest := c.rest.dropWhile isWordByte
      let bytes := word.toByteArray
      let t := match Mark.word? bytes with
        | some m => .mark m
        | none => .name bytes
      .ok (⟨t, c.line, word⟩, ⟨rest, c.line⟩)
    else if Numeral.isDigit b || (b == 46 && (r.head?.any Numeral.isDigit)) then
      match readNumeral c.line c.rest with
      | .ok (n, spelling, rest) => .ok (⟨.number n, c.line, spelling⟩, ⟨rest, c.line⟩)
      | .error e => .error e
    else if b == 34 || b == 39 then
      match readString b fuel [b] ⟨r, c.line⟩ with
      | .ok (spelling, c') =>
        .ok (⟨.string (spelling.drop 1).dropLast.toByteArray, c'.line, spelling⟩, c')
      | .error e => .error e
    -- A bracket before anything else is a mark.
    else if b == 91 && (r.head? == some 91 || r.head? == some 61) then
      match longBracket? 91 r with
      | some (level, r') =>
        match readLong "string" level fuel ⟨r', c.line⟩ with
        | .ok (content, c') =>
          let fence := List.replicate level 61
          .ok (⟨.string content.toByteArray, c'.line,
            91 :: (fence ++ 91 :: content) ++ 93 :: (fence ++ [93])⟩, c')
        | .error e => .error e
      | none =>
        fail c.line "invalid long string delimiter"
          (some (quoted (91 :: List.replicate (takeEquals 0 r).1 61)))
    else
      match mark? b r with
      | some (m, rest) => .ok (⟨.mark m, c.line, []⟩, ⟨rest, c.line⟩)
      | none => .ok (⟨.stray b, c.line, []⟩, ⟨r, c.line⟩)

/-- The tokens from the cursor on, after those already read. -/
def tokens : Nat → Array Lexeme → Cursor → Lexemes
  | 0, read, _ => ⟨read, none⟩
  | fuel + 1, read, c =>
    match skip (fuel + 1) c with
    | .error e => ⟨read, some e⟩
    | .ok c =>
      match token (fuel + 1) c with
      | .error e => ⟨read, some e⟩
      | .ok (l, c') =>
        if l.token = .eof then ⟨read.push l, none⟩ else tokens fuel (read.push l) c'

end Lexer

/-- The tokens of a source. -/
def Lexemes.ofSource (source : List UInt8) : Lexemes :=
  Lexer.tokens (source.length + 1) #[] ⟨source, 1⟩

end VaultConsole.Lua
