import VaultConsole.Text.Utf8
import VaultConsole.Yaml.Scalar
import VaultConsole.Yaml.Token

/-!
# Reading the tokens of YAML documents

Collections in block style begin and end where the indentation changes. A key without an indicator is
recognized by the colon that follows it: until then it is only known that a key may begin at some token.
-/

namespace VaultConsole.Yaml

/-- A token at which a key may begin that has no indicator. -/
structure KeyStart where
  /-- The number of tokens before it. -/
  position : Nat
  /-- Whether it must be a key. -/
  isRequired : Bool
  index : Nat
  line : Nat
  column : Nat
  deriving Inhabited

/-- The state of reading tokens. -/
structure Lexer where
  cursor : Cursor
  tokens : Array Token
  /-- The columns of the block collections around, innermost first; below zero outside of all. -/
  indent : Int
  indents : List Int
  /-- Where a key may begin, for each collection of flow style around, innermost first, and outside of
  them. -/
  keys : List (Option KeyStart)
  /-- Whether a key may begin at the next token. -/
  keyAllowed : Bool
  deriving Inhabited

namespace Lexer

/-- The state at the start of a text. -/
def start (text : List Char) : Lexer := ⟨Cursor.start text, #[], -1, [], [none], true⟩

/-- Whether the place is inside of a collection of flow style. -/
def inFlow (l : Lexer) : Bool := l.keys.length > 1

/-- Adds a token at the end. -/
def push (l : Lexer) (t : Token) : Lexer := { l with tokens := l.tokens.push t }

/-- Adds a token of `n` characters. -/
def accept (l : Lexer) (n : Nat) (t : Token) : Lexer :=
  { l with tokens := l.tokens.push t, cursor := l.cursor.skip n }

/-! ## Indentation -/

/-- Adds a token at a position. -/
def insert (l : Lexer) (position : Nat) (t : Token) : Lexer :=
  { l with tokens := l.tokens.insertIdxIfInBounds position t }

/-- Begins a block collection where the indentation grows. -/
def indentTo (l : Lexer) (column : Nat) (position : Nat) (t : Token) : Lexer :=
  if l.inFlow || column ≤ l.indent then l
  else { l.insert position t with indents := l.indent :: l.indents, indent := column }

/-- Ends the block collections that are indented more than a column. -/
def dedentFrom (column : Int) : List Int → Lexer → Lexer
  | [], l => l
  | i :: is, l =>
    if l.indent > column then
      dedentFrom column is { l.push .blockEnd with indent := i, indents := is }
    else l

/-- Ends the block collections that are indented more than a column. -/
def dedentTo (l : Lexer) (column : Int) : Lexer :=
  if l.inFlow then l else dedentFrom column l.indents l

/-! ## Keys -/

/-- The greatest number of characters of a key without an indicator. -/
def maxKey : Nat := 1024

/-- Gives up a place where a key may begin. -/
def dropKey (k? : Option KeyStart) : Except Fault (Option KeyStart) :=
  match k? with
  | some k => if k.isRequired then .error .simpleKey else .ok none
  | none => .ok none

/-- Gives up the places whose line has ended, and those that are too far away. -/
def dropStale (l : Lexer) : Except Fault Lexer := do
  let keys ← l.keys.mapM fun k? =>
    match k? with
    | some k =>
      if k.line < l.cursor.line || k.index + maxKey < l.cursor.index then dropKey k? else .ok k?
    | none => .ok none
  return { l with keys }

/-- Gives up the innermost place where a key may begin. -/
def removeKey (l : Lexer) : Except Fault Lexer :=
  match l.keys with
  | k :: ks => (dropKey k).map fun k => { l with keys := k :: ks }
  | [] => .ok l

/-- Notes that a key may begin here. -/
def saveKey (l : Lexer) : Except Fault Lexer := do
  if l.keyAllowed then
    let k : KeyStart :=
      -- What stands at the indentation of a block mapping has to be a key.
      ⟨l.tokens.size, !l.inFlow && l.indent == (l.cursor.column : Int), l.cursor.index, l.cursor.line,
        l.cursor.column⟩
    let l ← l.removeKey
    return { l with keys := some k :: l.keys.tail }
  else return l

/-- Sets whether a key may begin at the next token. -/
def allowKey (l : Lexer) (allowed : Bool) : Lexer := { l with keyAllowed := allowed }

/-! ## Tags and directives -/

/-- One character written by its bytes in hexadecimal digits: the character and the number of characters
that it takes. -/
def tagEscape? (cs : List Char) : Option (Char × Nat) :=
  let octet? (cs : List Char) : Option UInt8 :=
    match cs with
    | '%' :: a :: b :: _ =>
      (hexValue? a).bind fun a => (hexValue? b).map fun b => UInt8.ofNat (a * 16 + b)
    | _ => none
  match octet? cs with
  | none => none
  | some first =>
    -- The first byte says how many follow, each of them escaped as well.
    let tails := if first < 0x80 then 0 else if first < 0xE0 then 1 else if first < 0xF0 then 2 else 3
    let rest := (List.range tails).filterMap fun i => octet? (cs.drop (3 * (i + 1)))
    match Text.Utf8.piece first rest with
    | .char c n => if n = tails then some (c, 3 * (tails + 1)) else none
    | .bad .. => none

/-- The characters of a tag, latest first, and the place behind them. -/
def tagFrom (verbatim : Bool) : Nat → List Char → Cursor → Except Fault (List Char × Cursor)
  | 0, read, c => .ok (read, c)
  | fuel + 1, read, c =>
    if !isTagChar verbatim c.head then .ok (read, c)
    else if c.head == '%' then
      match tagEscape? c.rest with
      | some (x, n) => tagFrom verbatim fuel (x :: read) (c.skip n)
      | none => .error .tag
    else tagFrom verbatim fuel (c.head :: read) (c.skip 1)

/-- The characters of a tag after those already read; there has to be one. -/
def tagText (verbatim : Bool) (before : List Char) (c : Cursor) : Except Fault (String × Cursor) := do
  let (read, next) ← tagFrom verbatim (c.rest.length + 1) [] c
  if read.isEmpty && before.isEmpty then throw .tag
  else return (String.ofList (before.tail ++ read.reverse), next)

/-- A tag handle: an exclamation mark, and a name with another one if that follows. -/
def tagHandle (c : Cursor) : List Char × Cursor :=
  let (name, next) := (c.skip 1).takeWhile isNameChar
  if next.head == '!' then ('!' :: (name ++ ['!']), next.skip 1) else ('!' :: name, next)

/-- A tag. -/
def readTag (inFlow : Bool) (c : Cursor) : Except Fault (Token × Cursor) := do
  let (token, next) ←
    if c.peek 1 == '<' then do
      let (suffix, next) ← tagText true [] (c.skip 2)
      if next.head == '>' then pure (Token.tag "" suffix, next.skip 1) else throw Fault.tag
    else do
      let (handle, next) := tagHandle c
      if handle.length > 1 && handle.getLast? == some '!' then
        let (suffix, next) ← tagText false [] next
        pure (Token.tag (String.ofList handle) suffix, next)
      else
        let (suffix, next) ← tagText false handle next
        pure (if suffix.isEmpty then Token.tag "" "!" else Token.tag "!" suffix, next)
  if isSeparator next.head || (inFlow && next.head == ',') then return (token, next) else throw .tag

/-- A number of a version. -/
def versionNumber (c : Cursor) : Except Fault (Nat × Cursor) :=
  let (digits, next) := c.takeWhile fun x => '0' ≤ x && x ≤ '9'
  if digits.isEmpty || digits.length > 9 then .error .directive
  else .ok (digits.foldl (fun n x => n * 10 + (x.toNat - 48)) 0, next)

/-- A directive. -/
def readDirective (c : Cursor) : Except Fault (Token × Cursor) := do
  let (name, next) := (c.skip 1).takeWhile isNameChar
  if name.isEmpty || !isSeparator next.head then throw .directive
  let next := next.dropWhile isBlank
  let (token, next) ←
    if name == "YAML".toList then do
      let (major, next) ← versionNumber next
      if next.head != '.' then throw Fault.directive
      let (minor, next) ← versionNumber (next.skip 1)
      pure (Token.version major minor, next)
    else if name == "TAG".toList then do
      if next.head != '!' then throw Fault.directive
      let (handle, next) := tagHandle next
      if handle.length > 1 && handle.getLast? != some '!' then throw Fault.directive
      if !isBlank next.head then throw Fault.directive
      let (start, next) ← tagText true [] (next.dropWhile isBlank)
      if !isSeparator next.head then throw Fault.directive
      pure (Token.tagHandle (String.ofList handle) start, next)
    else throw Fault.directive
  let next ← endOfLine .directive next
  return (token, next)

/-! ## Tokens -/

/-- A token at the boundary between documents. -/
def boundary (l : Lexer) : Except Fault Lexer := do
  return (← (l.dedentTo (-1)).removeKey).allowKey false

/-- Begins a collection of flow style. -/
def openFlow (l : Lexer) (t : Token) : Except Fault Lexer := do
  let l ← l.saveKey
  return { l with keys := none :: l.keys, keyAllowed := true }.accept 1 t

/-- Ends a collection of flow style. -/
def closeFlow (l : Lexer) (t : Token) : Except Fault Lexer := do
  let l ← l.removeKey
  let keys := match l.keys with
    | _ :: k :: ks => k :: ks
    | ks => ks
  return { l with keys, keyAllowed := false }.accept 1 t

/-- An indicator that begins an item or a key of a block collection. -/
def blockIndicator (l : Lexer) (collection t : Token) (allowed : Bool) : Except Fault Lexer := do
  if !l.inFlow && !l.keyAllowed then throw .token
  let l := l.indentTo l.cursor.column l.tokens.size collection
  return ((← l.removeKey).allowKey allowed).accept 1 t

/-- The colon between a key and a value. -/
def valueIndicator (l : Lexer) : Except Fault Lexer :=
  match l.keys with
  | some k :: ks =>
    -- That it was a key is known now: its token and that of its mapping go before it.
    let l := l.insert k.position .key
    let l := l.indentTo k.column k.position .blockMapping
    .ok ({ l with keys := none :: ks, keyAllowed := false }.accept 1 .value)
  | _ =>
    if l.inFlow then .ok ((l.allowKey false).accept 1 .value)
    else if !l.keyAllowed then .error .token
    else .ok ((l.indentTo l.cursor.column l.tokens.size .blockMapping).accept 1 .value)

/-- An anchor or an alias. -/
def named (l : Lexer) (build : String → Token) : Except Fault Lexer := do
  let l := (← l.saveKey).allowKey false
  let (name, next) := (l.cursor.skip 1).takeWhile isNameChar
  if name.isEmpty || !(isSeparator next.head || "?:,]\x7d%@`".toList.contains next.head) then throw .anchor
  return { l.push (build (String.ofList name)) with cursor := next }

/-- Whether a plain scalar can begin here. -/
def startsPlain (l : Lexer) : Bool :=
  let x := l.cursor.head
  let y := l.cursor.peek 1
  !(isSeparator x || isIndicator x) || (x == '-' && !isBlank y)
    || (!l.inFlow && (x == '?' || x == ':') && !isSeparator y)

/-- The next token. -/
def readToken (l : Lexer) : Except Fault Lexer := do
  let c := l.cursor
  let x := c.head
  let separated := isSeparator (c.peek 1)
  -- Directives and the boundaries of documents stand at the start of a line.
  if c.column == 0 && x == '%' then
    let l ← l.boundary
    let (t, next) ← readDirective c
    return { l.push t with cursor := next }
  else if c.isBoundary '-' then return (← l.boundary).accept 3 .documentStart
  else if c.isBoundary '.' then return (← l.boundary).accept 3 .documentEnd
  else if x == '[' then l.openFlow .flowSequence
  else if x == '\x7b' then l.openFlow .flowMapping
  else if x == ']' then l.closeFlow .flowSequenceEnd
  else if x == '\x7d' then l.closeFlow .flowMappingEnd
  else if x == ',' then return ((← l.removeKey).allowKey true).accept 1 .flowEntry
  else if x == '-' && separated then l.blockIndicator .blockSequence .blockEntry true
  else if x == '?' && (l.inFlow || separated) then l.blockIndicator .blockMapping .key (!l.inFlow)
  else if x == ':' && (l.inFlow || separated) then l.valueIndicator
  else if x == '*' then l.named .alias
  else if x == '&' then l.named .anchor
  else if x == '!' then
    let l := (← l.saveKey).allowKey false
    let (t, next) ← readTag l.inFlow c
    return { l.push t with cursor := next }
  else if (x == '|' || x == '>') && !l.inFlow then
    let l := (← l.removeKey).allowKey true
    let (text, next) ← blockScalar (x == '|') l.indent c
    return { l.push (.scalar text false) with cursor := next }
  else if x == '\'' || x == '"' then
    let l := (← l.saveKey).allowKey false
    let (text, next) ← quotedScalar (x == '\'') c
    return { l.push (.scalar text false) with cursor := next }
  else if l.startsPlain then
    let l ← l.saveKey
    let (text, broken, next) ← plainScalar l.inFlow (l.indent + 1).toNat c
    -- A key may follow a plain scalar only after a line break.
    return { l.push (.scalar text true) with cursor := next, keyAllowed := broken }
  else throw .token

/-- The byte order mark, which may stand at the start of a document. -/
def byteOrderMark : Char := '\ufeff'

/-- The place of the next token, behind blanks, comments and breaks. A tab is not taken where a key may
begin. -/
def toToken : Nat → Lexer → Lexer
  | 0, l => l
  | fuel + 1, l =>
    let c := if l.cursor.index == 0 && l.cursor.head == byteOrderMark then l.cursor.skip 1 else l.cursor
    let tabs := l.inFlow || !l.keyAllowed
    let c := (c.dropWhile fun x => x == ' ' || (tabs && x == '\t')).dropComment
    if isBreak c.head then
      toToken fuel { l with cursor := c.skipBreak, keyAllowed := l.keyAllowed || !l.inFlow }
    else { l with cursor := c }

/-- The end of the text. -/
def finish (l : Lexer) : Except Fault Lexer := (l.dedentTo (-1)).removeKey

/-- All tokens of a text. -/
def readAll : Nat → Lexer → Except Fault Lexer
  | 0, _ => .error .token
  | fuel + 1, l => do
    let l := toToken (l.cursor.rest.length + 1) l
    let l ← l.dropStale
    -- Collections that are indented more end before the token.
    let l := l.dedentTo l.cursor.column
    if l.cursor.atEnd then l.finish
    else readAll fuel (← l.readToken)

/-- The tokens of a text. -/
def tokensOf (text : List Char) : Except Fault (List Token) :=
  if text.all isAllowed then
    (readAll (text.length + 2) (start text)).map (·.tokens.toList)
  else .error .character

end Lexer

end VaultConsole.Yaml
