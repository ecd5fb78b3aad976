/-!
# UTF-8

Bytes read as text. A sequence is split into pieces: whole characters, and maximal parts that
can begin no character. Reading strictly asks that every piece is a character; reading loosely puts
one replacement character for each piece that is none.
-/

namespace VaultConsole.Text.Utf8

/-- What a lead byte promises: the range of the second byte, the number of tails after that one,
and the bits that the lead contributes. -/
structure Lead where
  low : UInt8
  high : UInt8
  more : Nat
  bits : Nat
  deriving DecidableEq

/-- The promise of a lead byte above the ASCII range, if it can begin a character at all. -/
def lead? (a : UInt8) : Option Lead :=
  if 0xC2 ≤ a && a ≤ 0xDF then some ⟨0x80, 0xBF, 0, a.toNat - 0xC0⟩
  else if a == 0xE0 then some ⟨0xA0, 0xBF, 1, 0⟩
  else if a == 0xED then some ⟨0x80, 0x9F, 1, 0xD⟩
  else if 0xE1 ≤ a && a ≤ 0xEF then some ⟨0x80, 0xBF, 1, a.toNat - 0xE0⟩
  else if a == 0xF0 then some ⟨0x90, 0xBF, 2, 0⟩
  else if a == 0xF4 then some ⟨0x80, 0x8F, 2, 4⟩
  else if 0xF1 ≤ a && a ≤ 0xF3 then some ⟨0x80, 0xBF, 2, a.toNat - 0xF0⟩
  else none

/-- The first piece of a sequence of bytes, after its first byte. -/
inductive Piece where
  /-- A character, which takes `more` bytes after the first one. -/
  | char (c : Char) (more : Nat)
  /-- No character: a part of `more` bytes after the first one, and whether the bytes end there
  while a character could still go on. -/
  | bad (more : Nat) (cut : Bool)

/-- The number of bytes of a piece after its first one. -/
def Piece.more : Piece → Nat
  | .char _ n => n
  | .bad n _ => n

/-- Takes `n` tails; `taken` bytes were taken before and make up `value`. -/
def tails : Nat → Nat → Nat → List UInt8 → Piece
  | 0, taken, value, _ => .char (Char.ofNat value) taken
  | _ + 1, taken, _, [] => .bad taken true
  | n + 1, taken, value, b :: r =>
    if 0x80 ≤ b && b ≤ 0xBF then tails n (taken + 1) (value * 64 + (b.toNat - 0x80)) r
    else .bad taken false

/-- The piece that begins with the byte `a`, before the bytes `r`. -/
def piece (a : UInt8) (r : List UInt8) : Piece :=
  if a < 0x80 then .char (Char.ofNat a.toNat) 0
  else match lead? a with
    | none => .bad 0 false
    | some l =>
      match r with
      | [] => .bad 0 true
      | b :: r =>
        if l.low ≤ b && b ≤ l.high then tails l.more 1 (l.bits * 64 + (b.toNat - 0x80)) r
        else .bad 0 false

/-- The character put for bytes that are none. -/
def replacement : Char := Char.ofNat 0xFFFD

/-- The characters read so far, latest first, followed by every further piece as a character, bad
ones replaced. -/
def decodeLossyOnto (read : List Char) : List UInt8 → List Char
  | [] => read.reverse
  | a :: r =>
    match piece a r with
    | .char c n => decodeLossyOnto (c :: read) (r.drop n)
    | .bad n _ => decodeLossyOnto (replacement :: read) (r.drop n)
termination_by bs => bs.length
decreasing_by all_goals simp only [List.length_cons, List.length_drop]; omega

/-- Every piece as a character, bad ones replaced. -/
def decodeLossy (bytes : List UInt8) : List Char := decodeLossyOnto [] bytes

/-- Why bytes are no text. -/
structure Fault where
  /-- The number of bytes before the first bad piece. -/
  validUpTo : Nat
  /-- The length of the bad piece, or none when the bytes end inside a character. -/
  length? : Option Nat
  deriving DecidableEq, Repr

/-- The characters of valid bytes after those already read (latest first), or the first fault;
`start` bytes came before. -/
def decodeOnto (read : List Char) : Nat → List UInt8 → Except Fault (List Char)
  | _, [] => .ok read.reverse
  | start, a :: r =>
    match piece a r with
    | .char c n => decodeOnto (c :: read) (start + n + 1) (r.drop n)
    | .bad n cut => .error ⟨start, if cut then none else some (n + 1)⟩
termination_by _ bs => bs.length
decreasing_by all_goals simp only [List.length_cons, List.length_drop]; omega

/-- Strict reading of bytes as text. -/
def decode (bytes : ByteArray) : Except Fault String :=
  (decodeOnto [] 0 bytes.toList).map String.ofList

/-- Reading of bytes as text, where each bad piece becomes one replacement character. -/
def lossy (bytes : ByteArray) : String := String.ofList (decodeLossy bytes.toList)

/-- The text of a fault. -/
def Fault.message (f : Fault) : String :=
  match f.length? with
  | some n => s!"invalid utf-8 sequence of {n} bytes from index {f.validUpTo}"
  | none => s!"incomplete utf-8 byte sequence from index {f.validUpTo}"

end VaultConsole.Text.Utf8
