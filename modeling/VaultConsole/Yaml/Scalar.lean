import VaultConsole.Yaml.Cursor
import VaultConsole.Yaml.Fault

/-!
# Texts of YAML scalars

The three kinds of scalars and how line breaks in them are folded: a single break becomes a space, and of
several breaks all but the first stay.
-/

namespace VaultConsole.Yaml

/-- Breaks between two parts of a scalar: the first one, and those after it. -/
structure Breaks where
  first : List Char
  more : List Char

namespace Breaks

/-- No breaks. -/
def none : Breaks := ⟨[], []⟩

/-- What breaks become between two lines of text. -/
def fold (b : Breaks) : List Char :=
  if b.first == ['\n'] then (if b.more.isEmpty then [' '] else b.more) else b.first ++ b.more

end Breaks

/-- Blanks and breaks between two parts of a scalar: the blanks of the first line, and the breaks if there
are any. `minimum?` is the least column at which a tab may stand after a break. -/
def takeGap (minimum? : Option Nat) : Nat → List Char → Option Breaks → Cursor →
    Except Fault (List Char × Option Breaks × Cursor)
  | 0, blanks, breaks, c => .ok (blanks, breaks, c)
  | fuel + 1, blanks, breaks, c =>
    let x := c.head
    if isBlank x then
      match breaks with
      | none => takeGap minimum? fuel (blanks ++ [x]) none (c.skip 1)
      | some b =>
        if x == '\t' && minimum?.any (c.column < ·) then .error .indentation
        else takeGap minimum? fuel blanks (some b) (c.skip 1)
    else if isBreak x then
      match breaks with
      | none => takeGap minimum? fuel [] (some ⟨c.breakText, []⟩) c.skipBreak
      | some b => takeGap minimum? fuel blanks (some ⟨b.first, b.more ++ c.breakText⟩) c.skipBreak
    else .ok (blanks, breaks, c)

/-! ## Plain scalars -/

/-- The characters of one piece of a plain scalar, and whether the scalar ends with it. -/
def plainPiece (inFlow : Bool) : List Char → List Char → Except Fault (List Char × Bool)
  | piece, [] => .ok (piece.reverse, true)
  | piece, x :: r =>
    if isSeparator x then .ok (piece.reverse, false)
    else
      let next := r.headD endMark
      if inFlow && x == ':' && (isFlowIndicator next || next == '?') then .error .plain
      else if (x == ':' && isSeparator next) || (inFlow && isFlowIndicator x) then
        .ok (piece.reverse, true)
      else plainPiece inFlow (x :: piece) r

/-- The text of a plain scalar, latest character first, and the place behind it; with it comes whether the
scalar is followed by a line break. `gap` is what stands before the next piece. -/
def plainFrom (inFlow : Bool) (minimum : Nat) : Nat → List Char → List Char → Bool → Cursor →
    Except Fault (List Char × Bool × Cursor)
  | 0, text, _, broken, c => .ok (text, broken, c)
  | fuel + 1, text, gap, broken, c => do
    if c.atBoundary || c.head == '#' then return (text, broken, c)
    else
      let (piece, ended) ← plainPiece inFlow [] c.rest
      let text' := if piece.isEmpty then text else piece.reverse ++ (gap.reverse ++ text)
      let c := c.skip piece.length
      let broken' := if piece.isEmpty then broken else false
      if ended then return (text', broken', c)
      else
        let (blanks, breaks, c) ← takeGap (some minimum) (c.rest.length + 1) [] none c
        match breaks with
        | none => plainFrom inFlow minimum fuel text' blanks broken' c
        | some b =>
          -- A line that is indented less does not belong to the scalar.
          if !inFlow && c.column < minimum then return (text', true, c)
          else plainFrom inFlow minimum fuel text' b.fold true c

/-- A plain scalar: its text, whether a line break follows it, and the place behind it. -/
def plainScalar (inFlow : Bool) (minimum : Nat) (c : Cursor) : Except Fault (String × Bool × Cursor) := do
  let (text, broken, c) ← plainFrom inFlow minimum (c.rest.length + 1) [] [] false c
  return (String.ofList text.reverse, broken, c)

/-! ## Quoted scalars -/

/-- The value of a hexadecimal digit. -/
def hexValue? (c : Char) : Option Nat :=
  if '0' ≤ c && c ≤ '9' then some (c.toNat - 48)
  else if 'a' ≤ c && c ≤ 'f' then some (c.toNat - 87)
  else if 'A' ≤ c && c ≤ 'F' then some (c.toNat - 55)
  else none

/-- The character of a number of hexadecimal digits. -/
def hexChar? (digits : List Char) : Option Char :=
  (digits.foldlM (fun n c => (hexValue? c).map (n * 16 + ·)) 0).bind fun n =>
    if h : n.isValidChar then some (Char.ofNatAux n h) else none

/-- The character that an escape stands for by its letter. -/
def escaped? : Char → Option Char
  | '0' => some '\x00'
  | 'a' => some '\x07'
  | 'b' => some '\x08'
  | 't' | '\t' => some '\t'
  | 'n' => some '\n'
  | 'v' => some '\x0b'
  | 'f' => some '\x0c'
  | 'r' => some '\r'
  | 'e' => some '\x1b'
  | ' ' => some ' '
  | '"' => some '"'
  | '/' => some '/'
  | '\\' => some '\\'
  | 'N' => some '\u0085'
  | '_' => some '\u00a0'
  | 'L' => some '\u2028'
  | 'P' => some '\u2029'
  | _ => none

/-- The number of hexadecimal digits that follow the letter of an escape. -/
def escapeDigits? : Char → Option Nat
  | 'x' => some 2
  | 'u' => some 4
  | 'U' => some 8
  | _ => none

/-- What ends one piece of a quoted scalar. -/
inductive PieceEnd where
  /-- The closing quote. -/
  | quote
  /-- A blank, a line break or the end of the document. -/
  | gap
  /-- A line break that is escaped. -/
  | continued
  deriving DecidableEq, Inhabited

/-- One piece of a quoted scalar, put before the text so far, which has its latest character first. -/
def quotedPiece (single : Bool) : Nat → List Char → Cursor → Except Fault (List Char × PieceEnd × Cursor)
  | 0, text, c => .ok (text, .gap, c)
  | fuel + 1, text, c =>
    let x := c.head
    if isSeparator x then .ok (text, .gap, c)
    else if single then
      if x == '\'' then
        if c.peek 1 == '\'' then quotedPiece single fuel ('\'' :: text) (c.skip 2)
        else .ok (text, .quote, c)
      else quotedPiece single fuel (x :: text) (c.skip 1)
    else if x == '"' then .ok (text, .quote, c)
    else if x == '\\' then
      let e := c.peek 1
      if isBreak e then .ok (text, .continued, (c.skip 1).skipBreak)
      else
        match escaped? e with
        | some y => quotedPiece single fuel (y :: text) (c.skip 2)
        | none =>
          match escapeDigits? e with
          | none => .error .escape
          | some n =>
            let digits := (c.skip 2).rest.take n
            match if digits.length = n then hexChar? digits else none with
            | some y => quotedPiece single fuel (y :: text) (c.skip (2 + n))
            | none => .error .escape
    else quotedPiece single fuel (x :: text) (c.skip 1)

/-- The text of a quoted scalar after the text so far, latest character first, and the place behind the
closing quote. -/
def quotedFrom (single : Bool) : Nat → List Char → Cursor → Except Fault (List Char × Cursor)
  | 0, _, _ => .error .quoted
  | fuel + 1, text, c => do
    if c.atBoundary || c.atEnd then throw .quoted
    else
      let (text, pieceEnd, c) ← quotedPiece single (c.rest.length + 1) text c
      if pieceEnd = .quote then return (text, c.skip 1)
      else
        -- An escaped break stands for nothing, and only those after it count.
        let start := if pieceEnd = .continued then some Breaks.none else none
        let (blanks, breaks, c) ← takeGap none (c.rest.length + 1) [] start c
        let gap := match breaks with
          | none => blanks
          | some b => b.fold
        quotedFrom single fuel (gap.reverse ++ text) c

/-- A quoted scalar: its text and the place behind it. -/
def quotedScalar (single : Bool) (c : Cursor) : Except Fault (String × Cursor) := do
  let (text, c) ← quotedFrom single (c.rest.length + 1) [] (c.skip 1)
  return (String.ofList text.reverse, c)

/-! ## Block scalars -/

/-- What happens to the breaks at the end of a block scalar. -/
inductive Chomping where
  | strip | clip | keep
  deriving DecidableEq, Inhabited

/-- The header of a block scalar: what happens to its last breaks, and the indentation that it adds. -/
def blockHeader (c : Cursor) : Except Fault (Chomping × Option Nat × Cursor) :=
  let chomping? (x : Char) : Option Chomping :=
    if x == '+' then some .keep else if x == '-' then some .strip else none
  let digit? (x : Char) : Option Nat := if '0' ≤ x && x ≤ '9' then some (x.toNat - 48) else none
  -- Both parts may be missing, and they may come in any order.
  match chomping? c.head with
  | some k =>
    let c := c.skip 1
    match digit? c.head with
    | some 0 => .error .blockHeader
    | some n => .ok (k, some n, c.skip 1)
    | none => .ok (k, none, c)
  | none =>
    match digit? c.head with
    | some 0 => .error .blockHeader
    | some n =>
      let c := c.skip 1
      match chomping? c.head with
      | some k => .ok (k, some n, c.skip 1)
      | none => .ok (.clip, some n, c)
    | none => .ok (.clip, none, c)

/-- The place behind the blanks, the comment and the break that end a line. -/
def endOfLine (fault : Fault) (c : Cursor) : Except Fault Cursor :=
  let c := (c.dropWhile isBlank).dropComment
  if isBreakOrEnd c.head then .ok c.skipBreak? else .error fault

/-- The place behind spaces, up to a column if one is given. -/
def dropSpaces (indent? : Option Nat) (c : Cursor) : Cursor :=
  let spaces := c.rest.takeWhile (· == ' ')
  c.skip (match indent? with
    | some i => min spaces.length (i - c.column)
    | none => spaces.length)

/-- Empty lines of a block scalar: their breaks, the widest indentation among them, and the place behind
them and behind the indentation of the next line. -/
def emptyLines (indent? : Option Nat) : Nat → List Char → Nat → Cursor →
    Except Fault (List Char × Nat × Cursor)
  | 0, breaks, widest, c => .ok (breaks, widest, c)
  | fuel + 1, breaks, widest, c =>
    let c := dropSpaces indent? c
    let widest := max widest c.column
    if c.head == '\t' && indent?.all (c.column < ·) then .error .indentation
    else if isBreak c.head then emptyLines indent? fuel (breaks ++ c.breakText) widest c.skipBreak
    else .ok (breaks, widest, c)

/-- The lines of a block scalar after the text so far, latest character first. `first` is the break before
the next line, `more` are the empty lines after it, and `indented` tells whether the line before begins
with a blank. -/
def blockLines (literal : Bool) (indent : Nat) : Nat → List Char → List Char → List Char → Bool → Cursor →
    Except Fault (List Char × List Char × List Char × Cursor)
  | 0, text, first, more, _, c => .ok (text, first, more, c)
  | fuel + 1, text, first, more, indented, c =>
    if c.column == indent && !c.atEnd then do
      let blank := isBlank c.head
      -- A break is folded only between two lines that begin with no blank.
      let gap :=
        if !literal && first == ['\n'] && !indented && !blank then
          if more.isEmpty then [' '] else more
        else first ++ more
      let (line, c) := c.takeLine
      let first := c.breakText
      let (more, _, c) ← emptyLines (some indent) (c.rest.length + 2) [] 0 c.skipBreak?
      blockLines literal indent fuel (line.reverse ++ (gap.reverse ++ text)) first more blank c
    else .ok (text, first, more, c)

/-- A block scalar inside of an indentation: its text and the place behind it. -/
def blockScalar (literal : Bool) (parent : Int) (c : Cursor) : Except Fault (String × Cursor) := do
  let (chomping, increment?, c) ← blockHeader (c.skip 1)
  let c ← endOfLine .blockHeader c
  let known := increment?.map fun n => if 0 ≤ parent then parent.toNat + n else n
  let (more, widest, c) ← emptyLines known (c.rest.length + 2) [] 0 c
  -- Without a number, the lines before the text say how far it is indented.
  let indent := known.getD (max widest (max (parent + 1).toNat 1))
  let (text, first, more, c) ← blockLines literal indent (c.rest.length + 1) [] [] more false c
  let tail := match chomping with
    | .strip => []
    | .clip => first
    | .keep => first ++ more
  return (String.ofList (tail.reverse ++ text).reverse, c)

end VaultConsole.Yaml
