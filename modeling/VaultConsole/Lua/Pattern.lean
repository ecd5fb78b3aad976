import VaultConsole.Lua.Number

/-!
# Patterns

Matching of byte strings against patterns with character classes, repetitions, captures, back references,
balanced pairs and frontiers. A match is found by backtracking; the nesting of its choices is limited.
-/

namespace VaultConsole.Lua

/-- Why a pattern cannot be matched. -/
inductive PatternFault where
  | endsWithEscape
  | missingBracket
  | missingBalance
  | missingFrontier
  | invalidCapture
  | captureIndex (n : Int)
  | tooManyCaptures
  | unfinishedCapture
  | tooComplex
  deriving DecidableEq, Repr, Inhabited

namespace PatternFault

/-- The text of a fault. -/
def message : PatternFault → String
  | endsWithEscape => "malformed pattern (ends with '%')"
  | missingBracket => "malformed pattern (missing ']')"
  | missingBalance => "malformed pattern (missing arguments to '%b')"
  | missingFrontier => "missing '[' after '%f' in pattern"
  | invalidCapture => "invalid pattern capture"
  | captureIndex n => s!"invalid capture index %{n}"
  | tooManyCaptures => "too many captures"
  | unfinishedCapture => "unfinished capture"
  | tooComplex => "pattern too complex"

end PatternFault

namespace Pattern

/-! ## Classes of bytes -/

def isUpper (b : UInt8) : Bool := 65 ≤ b && b ≤ 90

def isLower (b : UInt8) : Bool := 97 ≤ b && b ≤ 122

def isAlpha (b : UInt8) : Bool := isUpper b || isLower b

def isAlnum (b : UInt8) : Bool := isAlpha b || Numeral.isDigit b

def isGraph (b : UInt8) : Bool := 33 ≤ b && b ≤ 126

def toLower (b : UInt8) : UInt8 := if isUpper b then b + 32 else b

def toUpper (b : UInt8) : UInt8 := if isLower b then b - 32 else b

/-- Whether a byte is in the class of a letter; an upper-case letter stands for the complement, and any
other byte for itself. -/
def inClass (c letter : UInt8) : Bool :=
  let found : Option Bool := match Char.ofNat (toLower letter).toNat with
    | 'a' => some (isAlpha c)
    | 'c' => some (c < 32 || c == 127)
    | 'd' => some (Numeral.isDigit c)
    | 'g' => some (isGraph c)
    | 'l' => some (isLower c)
    | 'p' => some (isGraph c && !isAlnum c)
    | 's' => some (Numeral.isSpace c)
    | 'u' => some (isUpper c)
    | 'w' => some (isAlnum c)
    | 'x' => some (Numeral.hexValue? c).isSome
    | _ => none
  match found with
  | some r => if isUpper letter then !r else r
  | none => letter == c

/-- The byte at a position, or zero behind the end. -/
def byteAt (s : ByteArray) (i : Nat) : UInt8 := if h : i < s.size then s[i] else 0

/-- The end of a set in brackets, searched from a position. -/
def bracketEnd (p : ByteArray) : Nat → Nat → Except PatternFault Nat
  | 0, _ => .error .missingBracket
  | fuel + 1, i =>
    if i ≥ p.size then .error .missingBracket
    else
      -- The first byte is a member, even if it is a closing bracket.
      let i := if byteAt p i == 37 && i + 1 < p.size then i + 2 else i + 1
      if byteAt p i == 93 && i < p.size then .ok (i + 1) else bracketEnd p fuel i

/-- The end of the single class that begins at a position. -/
def classEnd (p : ByteArray) (i : Nat) : Except PatternFault Nat :=
  if byteAt p i == 37 then if i + 1 ≥ p.size then .error .endsWithEscape else .ok (i + 2)
  else if byteAt p i == 91 then
    bracketEnd p (p.size + 1) (if byteAt p (i + 1) == 94 then i + 2 else i + 1)
  else .ok (i + 1)

/-- Whether a byte is among the members of a set from a position up to its closing bracket. -/
def inMembers (c : UInt8) (p : ByteArray) (stop : Nat) : Nat → Nat → Bool
  | 0, _ => false
  | fuel + 1, i =>
    if i ≥ stop then false
    else if byteAt p i == 37 then
      inClass c (byteAt p (i + 1)) || inMembers c p stop fuel (i + 2)
    -- A minus sign between two members makes a range.
    else if byteAt p (i + 1) == 45 && i + 2 < stop then
      (byteAt p i ≤ c && c ≤ byteAt p (i + 2)) || inMembers c p stop fuel (i + 3)
    else byteAt p i == c || inMembers c p stop fuel (i + 1)

/-- Whether a byte is in the set whose opening bracket is at `i` and whose closing bracket is at `stop`. -/
def inSet (c : UInt8) (p : ByteArray) (i stop : Nat) : Bool :=
  if byteAt p (i + 1) == 94 then !inMembers c p stop (p.size + 1) (i + 2)
  else inMembers c p stop (p.size + 1) (i + 1)

/-- Whether the byte at `s` is in the single class from `i` to `stop`. -/
def matchesOne (subject p : ByteArray) (s i stop : Nat) : Bool :=
  if h : s < subject.size then
    let c := subject[s]
    let k := byteAt p i
    if k == 46 then true
    else if k == 37 then inClass c (byteAt p (i + 1))
    else if k == 91 then inSet c p i (stop - 1)
    else k == c
  else false

/-! ## Captures -/

/-- A capture. -/
inductive Captured where
  | position (start : Nat)
  | opened (start : Nat)
  | closed (start length : Nat)
  deriving DecidableEq, Repr, Inhabited

/-- The captures of a match so far, in order. -/
abbrev Captures := Array Captured

/-- The greatest number of captures. -/
def maxCaptures : Nat := 32

/-- The greatest nesting of choices. -/
def maxDepth : Nat := 200

/-- The number of the last open capture. -/
def lastOpen? (cs : Captures) : Nat → Option Nat
  | 0 => none
  | n + 1 =>
    match cs.getD n default with
    | .opened _ => some n
    | _ => lastOpen? cs n

/-- The bytes of a subject in a range. -/
def slice (subject : ByteArray) (start stop : Nat) : ByteArray := subject.extract start stop

/-- Where a balanced pair ends; `i` is the next byte and `depth` pairs are open. -/
def balanceEnd (subject : ByteArray) (b e : UInt8) : Nat → Nat → Nat → Option Nat
  | 0, _, _ => none
  | fuel + 1, depth, i =>
    if h : i < subject.size then
      let c := subject[i]
      if c == e then
        if depth ≤ 1 then some (i + 1) else balanceEnd subject b e fuel (depth - 1) (i + 1)
      else if c == b then balanceEnd subject b e fuel (depth + 1) (i + 1)
      else balanceEnd subject b e fuel depth (i + 1)
    else none

/-- How often a single class matches from a position on. -/
def countMatches (subject p : ByteArray) (i stop : Nat) : Nat → Nat → Nat → Nat
  | 0, _, n => n
  | fuel + 1, s, n =>
    if matchesOne subject p s i stop then countMatches subject p i stop fuel (s + 1) (n + 1) else n

/-- What matching gives: where the match ends with its captures, nothing, or a fault. -/
abbrev Attempt := Except PatternFault (Option (Nat × Captures))

/-- The first success among the attempts at `s + n`, …, `s`. -/
def longest (attempt : Nat → Attempt) (s : Nat) : Nat → Attempt
  | 0 => attempt s
  | n + 1 =>
    match attempt (s + (n + 1)) with
    | .ok none => longest attempt s n
    | r => r

/-- The first success among the attempts at `s`, `s + 1`, … as long as the bytes passed over are in a
class. -/
def shortest (attempt : Nat → Attempt) (passes : Nat → Bool) : Nat → Nat → Attempt
  | 0, _ => .ok none
  | fuel + 1, s =>
    match attempt s with
    | .ok none => if passes s then shortest attempt passes fuel (s + 1) else .ok none
    | r => r

/-- Matches a subject from `s` on against a pattern from `i` on. `depth` is the nesting that is left; the
fuel bounds the way through the pattern. -/
def matchFrom (subject p : ByteArray) : Nat → Nat → Captures → Nat → Nat → Attempt
  | 0, _, _, _, _ => .error .tooComplex
  | fuel + 1, depth, cs, s, i =>
    if i ≥ p.size then .ok (some (s, cs))
    else
      -- a choice goes one level deeper
      let deeper (cs : Captures) (s i : Nat) : Attempt :=
        if depth = 0 then .error .tooComplex else matchFrom subject p fuel (depth - 1) cs s i
      let k := byteAt p i
      let next := byteAt p (i + 1)
      let single (_ : Unit) : Attempt := do
        let stop ← classEnd p i
        let suffix := byteAt p stop
        if !matchesOne subject p s i stop then
          if suffix == 42 || suffix == 63 || suffix == 45 then
            matchFrom subject p fuel depth cs s (stop + 1)
          else .ok none
        else if suffix == 63 then
          match deeper cs (s + 1) (stop + 1) with
          | .ok none => matchFrom subject p fuel depth cs s (stop + 1)
          | r => r
        else if suffix == 43 then
          longest (fun s => deeper cs s (stop + 1)) (s + 1)
            (countMatches subject p i stop (subject.size + 1) (s + 1) 0)
        else if suffix == 42 then
          longest (fun s => deeper cs s (stop + 1)) s
            (countMatches subject p i stop (subject.size + 1) s 0)
        else if suffix == 45 then
          shortest (fun s => deeper cs s (stop + 1)) (fun s => matchesOne subject p s i stop)
            (subject.size + 2) s
        else matchFrom subject p fuel depth cs (s + 1) stop
      if k == 40 then
        if cs.size ≥ maxCaptures then .error .tooManyCaptures
        else if next == 41 then deeper (cs.push (.position s)) s (i + 2)
        else deeper (cs.push (.opened s)) s (i + 1)
      else if k == 41 then
        match lastOpen? cs cs.size with
        | none => .error .invalidCapture
        | some n =>
          match cs.getD n default with
          | .opened start => deeper (cs.setIfInBounds n (.closed start (s - start))) s (i + 1)
          | _ => .error .invalidCapture
      -- A dollar sign is an anchor at the end only, and elsewhere a byte like any other.
      else if k == 36 && i + 1 = p.size then
        .ok (if s = subject.size then some (s, cs) else none)
      else if k == 37 && next == 98 && i + 1 < p.size then
        if i + 3 ≥ p.size then .error .missingBalance
        else if byteAt subject s != byteAt p (i + 2) || s ≥ subject.size then .ok none
        else
          match balanceEnd subject (byteAt p (i + 2)) (byteAt p (i + 3)) (subject.size + 1) 1 (s + 1) with
          | none => .ok none
          | some s => matchFrom subject p fuel depth cs s (i + 4)
      else if k == 37 && next == 102 then
        if byteAt p (i + 2) != 91 then .error .missingFrontier
        else do
          let stop ← classEnd p (i + 2)
          -- The byte zero stands before the start and behind the end.
          let before := if s = 0 then 0 else byteAt subject (s - 1)
          if !inSet before p (i + 2) (stop - 1) && inSet (byteAt subject s) p (i + 2) (stop - 1) then
            matchFrom subject p fuel depth cs s stop
          else .ok none
      else if k == 37 && Numeral.isDigit next then
        -- Captures are counted from one on.
        match (if next == 48 then none else cs[next.toNat - 49]?) with
        | some (.closed start length) =>
          if s + length ≤ subject.size
              && slice subject start (start + length) == slice subject s (s + length) then
            matchFrom subject p fuel depth cs (s + length) (i + 2)
          else .ok none
        | some (.position _) => .ok none
        | _ => .error (.captureIndex (next.toNat - 48))
      else single ()

/-- A match. -/
structure Match where
  start : Nat
  stop : Nat
  captures : Captures
  deriving Inhabited

/-- Matches a subject at exactly one place against a pattern from `i` on. -/
def matchAt (subject p : ByteArray) (s i : Nat) : Except PatternFault (Option Match) := do
  let found ← matchFrom subject p ((maxDepth + 2) * (subject.size + p.size + 4)) (maxDepth - 1) #[] s i
  return found.map fun (stop, captures) => ⟨s, stop, captures⟩

/-- The first match from a place on. -/
def search (subject p : ByteArray) (i : Nat) : Nat → Nat → Except PatternFault (Option Match)
  | 0, _ => .ok none
  | fuel + 1, s => do
    match ← matchAt subject p s i with
    | some m => return some m
    | none => if s < subject.size then search subject p i fuel (s + 1) else return none

/-- Whether a pattern begins with an anchor. -/
def isAnchored (p : ByteArray) : Bool := byteAt p 0 == 94

/-- The first match from a place on, or only there if the pattern is anchored. -/
def find (subject p : ByteArray) (s : Nat) : Except PatternFault (Option Match) :=
  if isAnchored p then matchAt subject p s 1 else search subject p 0 (subject.size + 2) s

/-- Whether a pattern stands for itself. -/
def isPlain (p : ByteArray) : Bool :=
  p.toList.all fun b => !("^$*+?.([%-".toUTF8.toList.contains b)

/-- Whether the bytes of `p` stand in `s` at a position, compared from the `j`-th byte on. -/
def standsAt (s p : ByteArray) (i : Nat) : Nat → Nat → Bool
  | 0, _ => true
  | fuel + 1, j => if j ≥ p.size then true else byteAt s (i + j) == byteAt p j && standsAt s p i fuel (j + 1)

/-- The first place from `i` on where the bytes of `p` stand in `s`. -/
def findPlain (s p : ByteArray) : Nat → Nat → Option Nat
  | 0, _ => none
  | fuel + 1, i =>
    if i + p.size > s.size then none
    else if standsAt s p i p.size 0 then some i
    else findPlain s p fuel (i + 1)

/-- A captured value: bytes or a position counted from one. -/
inductive Piece where
  | bytes (s : ByteArray)
  | position (n : Nat)

/-- A capture of a match; without captures the whole match is the first one. -/
def Match.capture (m : Match) (subject : ByteArray) (n : Nat) : Except PatternFault Piece :=
  match m.captures[n]? with
  | some (.closed start length) => .ok (.bytes (slice subject start (start + length)))
  | some (.position start) => .ok (.position (start + 1))
  | some (.opened _) => .error .unfinishedCapture
  | none =>
    if n = 0 then .ok (.bytes (slice subject m.start m.stop)) else .error (.captureIndex (n + 1))

/-- All captures of a match; where there are none, the whole match if `whole` asks for it. -/
def Match.pieces (m : Match) (subject : ByteArray) (whole : Bool) : Except PatternFault (List Piece) :=
  (List.range (if m.captures.isEmpty && whole then 1 else m.captures.size)).mapM (m.capture subject)

end Pattern

end VaultConsole.Lua
