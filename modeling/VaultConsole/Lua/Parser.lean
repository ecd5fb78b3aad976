import VaultConsole.Lua.Lexer
import VaultConsole.Lua.Scope

/-!
# From tokens to syntax trees

A parser by recursive descent. Every function takes fuel, which bounds the depth of the recursion and
always suffices when it starts above a multiple of the number of tokens, and a level, which counts
the nesting that the language itself limits.
-/

namespace VaultConsole.Lua

/-- Why a source is no chunk. -/
inductive CompileFault where
  | syntaxFault (f : SyntaxFault)
  /-- The nesting exceeds the limit of the language. -/
  | nesting
  deriving DecidableEq, Inhabited

/-- The nesting at which calls and chunks are refused. -/
def maxNesting : Nat := 200

namespace Parser

/-- The state of a parser. -/
structure State where
  /-- The current token and those after it. -/
  rest : List Lexeme
  /-- The fault behind the last token. -/
  fault? : Option SyntaxFault
  /-- The line of the token before the current one. -/
  lastLine : Nat
  /-- The open functions, the innermost first. -/
  scopes : List FunctionScope

/-- A parser reads tokens and gives a result, or fails. -/
abbrev Parse (α : Type) := StateT State (Except CompileFault) α

/-! ## Tokens -/

/-- The current token. -/
def current : Parse Lexeme := do return (← get).rest.headD default

/-- Whether the current token is a mark. -/
def at? (m : Mark) : Parse Bool := do return (← current).token == .mark m

/-- Fails with a message about the current line; `near` names the current token. -/
def failWith (message : List UInt8) (near : Bool) : Parse α := do
  let l ← current
  throw (.syntaxFault ⟨l.line, message, if near then some l.near else none⟩)

/-- Fails near the current token. -/
def fail (message : String) : Parse α := failWith (utf8 message) true

/-- Goes on to the next token. -/
def advance : Parse Unit := do
  let s ← get
  match s.rest with
  | l :: l' :: r => set { s with rest := l' :: r, lastLine := l.line }
  | l :: [] =>
    match s.fault? with
    -- The source cannot be read on: this is where the fault shows.
    | some f => throw (.syntaxFault f)
    | none => set { s with lastLine := l.line }
  | [] => pure ()

/-- Takes a mark if it is the current token. -/
def accept (m : Mark) : Parse Bool := do
  if ← at? m then advance; return true else return false

/-- Fails because a mark is missing. -/
def failExpected (m : Mark) : Parse α :=
  failWith (quoted (utf8 m.text) ++ utf8 " expected") true

/-- Takes a mark, which has to be the current token. -/
def expect (m : Mark) : Parse Unit := do
  if ← at? m then advance else failExpected m

/-- Takes the mark that closes what `opener` opened at a line. -/
def expectClosing (m opener : Mark) (line : Nat) : Parse Unit := do
  if ← at? m then advance
  -- The place of the opening mark is told only if it is on another line.
  else if (← current).line == line then failExpected m
  else failWith (quoted (utf8 m.text) ++ utf8 " expected (to close " ++ quoted (utf8 opener.text)
    ++ utf8 s!" at line {line})") true

/-- Takes a name. -/
def expectName : Parse ByteArray := do
  match (← current).token with
  | .name s => advance; return s
  | _ => fail "<name> expected"

/-- The line of the last token that was taken. -/
def lastLine : Parse Nat := do return (← get).lastLine

/-- The line of the current token. -/
def line : Parse Nat := do return (← current).line

/-! ## Scopes -/

/-- The innermost function. -/
def scope : Parse FunctionScope := do return (← get).scopes.headD default

/-- Changes the innermost function. -/
def modifyScope (f : FunctionScope → FunctionScope) : Parse Unit :=
  modify fun s => { s with scopes := match s.scopes with
    | x :: xs => f x :: xs
    | [] => [] }

/-- Fails if `pending` locals that are about to be declared exceed the limit. -/
def checkLocals (pending : Nat) : Parse Unit := do
  let f ← scope
  if f.size + pending > maxLocals then
    -- Functions begin on lines from one on, and the chunk on none.
    let place := if f.line = 0 then "main function" else s!"function at line {f.line}"
    fail s!"too many local variables (limit is {maxLocals}) in {place}"

/-- Declares locals. -/
def declare (names : List (ByteArray × Attribute)) : Parse Unit :=
  modifyScope fun f => names.foldl (fun f (n, a) => f.declare n a) f

/-- The failure of a jump without a label. -/
def failJump (j : PendingJump) : Parse α :=
  match j.label? with
  | none => failWith (utf8 s!"break outside loop at line {j.line}") false
  | some name =>
    failWith (utf8 "no visible label '" ++ beforeNul name.toList
      ++ utf8 s!"' for <goto> at line {j.line}") false

/-- Closes the innermost block; where it is a whole function, a jump without a label fails. -/
def closeBlock : Parse Unit := do
  let (f, lost) := (← scope).closeBlock
  modifyScope fun _ => f
  -- Jumps that wait for a label wait in the block around; in a function there is none.
  match lost with
  | j :: _ => failJump j
  | [] => pure ()

/-- Parses inside a block of its own. -/
def inBlock (isLoop : Bool) (p : Parse α) : Parse α := do
  modifyScope (·.openBlock isLoop)
  let a ← p
  closeBlock
  return a

/-- Fails if an expression is a variable that may not be assigned to. -/
def checkAssignable (e : Expr) : Parse Unit := do
  match e with
  | .name s _ =>
    match lookupAttribute (← get).scopes s with
    | some .const | some .close =>
      failWith (utf8 "attempt to assign to const variable '" ++ beforeNul s.toList ++ utf8 "'") false
    | _ => pure ()
  | _ => pure ()

/-- Enters one level of nesting. -/
def enter (level : Nat) : Parse Nat :=
  if level + 1 ≥ maxNesting then throw .nesting else pure (level + 1)

/-! ## Grammar -/

/-- The operator with one operand that a token stands for. -/
def unaryOp? : Token → Option UnaryOp
  | .mark .not => some .not
  | .mark .minus => some .neg
  | .mark .tilde => some .bitNot
  | .mark .hash => some .len
  | _ => none

/-- The operator with two operands that a token stands for. -/
def binaryOp? : Token → Option BinaryOp
  | .mark .plus => some .add
  | .mark .minus => some .sub
  | .mark .star => some .mul
  | .mark .percent => some .mod
  | .mark .caret => some .pow
  | .mark .slash => some .div
  | .mark .doubleSlash => some .floorDiv
  | .mark .ampersand => some .bitAnd
  | .mark .pipe => some .bitOr
  | .mark .tilde => some .bitXor
  | .mark .shiftLeft => some .shiftLeft
  | .mark .shiftRight => some .shiftRight
  | .mark .concat => some .concat
  | .mark .notEqual => some .ne
  | .mark .equal => some .eq
  | .mark .less => some .lt
  | .mark .lessEqual => some .le
  | .mark .greater => some .gt
  | .mark .greaterEqual => some .ge
  | .mark .and => some .and
  | .mark .or => some .or
  | _ => none

/-- Whether a token can only follow a block. -/
def endsBlock (withUntil : Bool) : Token → Bool
  | .mark .else | .mark .elseif | .mark .end | .eof => true
  | .mark .until => withUntil
  | _ => false

/-- The line at which an operation is carried out: that of the operator, but for comparisons that of
the last token of the right operand. -/
def operationLine (op : BinaryOp) (operatorLine lastLine : Nat) : Nat :=
  match op with
  | .eq | .ne | .lt | .le | .gt | .ge => lastLine
  | _ => operatorLine

/-- The attribute of a local, in angle brackets. -/
def parseAttribute : Parse Attribute := do
  if ← accept .less then
    let name ← expectName
    expect .greater
    if name == "const".toUTF8 then return .const
    else if name == "close".toUTF8 then return .close
    else failWith (utf8 "unknown attribute '" ++ beforeNul name.toList ++ utf8 "'") false
  else return .regular

/-- The parameters of a function after the opening parenthesis; `names` came before. -/
def parseParameters : Nat → List ByteArray → Parse (List ByteArray × Bool)
  | 0, _ => fail "parameters too deep"
  | fuel + 1, names => do
    match (← current).token with
    | .name s =>
      advance
      checkLocals (names.length + 1)
      if ← accept .comma then parseParameters fuel (s :: names)
      else return ((s :: names).reverse, false)
    | .mark .dots => advance; return (names.reverse, true)
    | _ => fail "<name> or '...' expected"

/-- The names of a local declaration with their attributes. -/
def parseLocals : Nat → List (ByteArray × Attribute) → Parse (List (ByteArray × Attribute))
  | 0, _ => fail "names too deep"
  | fuel + 1, names => do
    let s ← expectName
    checkLocals (names.length + 1)
    let a ← parseAttribute
    if a == .close && names.any (·.2 == .close) then
      failWith (utf8 "multiple to-be-closed variables in local list") false
    let names := (s, a) :: names
    if ← accept .comma then parseLocals fuel names else return names.reverse

/-- The names of a generic loop after the first one. -/
def parseLoopNames : Nat → List ByteArray → Parse (List ByteArray)
  | 0, _ => fail "names too deep"
  | fuel + 1, names => do
    if ← accept .comma then
      let s ← expectName
      -- The loop has four hidden locals too, and this name is one more.
      checkLocals (names.length + 5)
      parseLoopNames fuel (s :: names)
    else return names.reverse

/-- The name of a function in a statement, as a target, and whether it is a method. -/
def parseFunctionName : Nat → Expr → Parse (Expr × Bool)
  | 0, _ => fail "name too deep"
  | fuel + 1, e => do
    if ← at? .dot then
      let e := e.settle (← lastLine)
      advance
      let s ← expectName
      parseFunctionName fuel (.index e (.string s) 0)
    else if ← at? .colon then
      let e := e.settle (← lastLine)
      advance
      let s ← expectName
      return (.index e (.string s) 0, true)
    else return (e, false)

/-- The name of the hidden locals of a loop. -/
def loopState : ByteArray := "(for state)".toUTF8

/-- Takes a separator of fields if it is the current token. -/
def acceptSeparator : Parse Bool := do
  if ← accept .comma then return true else accept .semicolon

/-- The fields of a table, of which the last one is fetched at a line if it is an item. -/
def settleLastField (line : Nat) : List Field → List Field
  | [] => []
  | [.item e] => [.item (e.settle line)]
  | f :: fs => f :: settleLastField line fs

mutual

/-- An expression whose operators bind more strongly than `limit`. -/
def parseOperators : Nat → Nat → Nat → Parse Expr
  | 0, _, _ => fail "expression too deep"
  | fuel + 1, level, limit => do
    let level ← enter level
    let left ← match unaryOp? (← current).token with
      | some op => do
        let l ← line
        advance
        let e ← parseOperators fuel level unaryBinding
        pure (.unary op (e.settle (← lastLine)) l)
      | none => parseSimple fuel level
    parseOperatorTail fuel level limit left

/-- The operators and right operands after a left operand. -/
def parseOperatorTail : Nat → Nat → Nat → Expr → Parse Expr
  | 0, _, _, _ => fail "expression too deep"
  | fuel + 1, level, limit, left => do
    match binaryOp? (← current).token with
    | some op =>
      if op.binding.1 > limit then
        let l ← line
        advance
        let left := left.settle (← lastLine)
        -- Whether the operator associates to the right is in its two bindings.
        let right ← parseOperators fuel level op.binding.2
        let last ← lastLine
        parseOperatorTail fuel level limit
          (.binary op left (right.settle last) (operationLine op l last))
      else return left
    | none => return left

/-- An operand. -/
def parseSimple : Nat → Nat → Parse Expr
  | 0, _ => fail "expression too deep"
  | fuel + 1, level => do
    match (← current).token with
    | .number n => advance; return .number n
    | .string s => advance; return .string s
    | .mark .nil => advance; return .nil
    | .mark .true => advance; return .bool true
    | .mark .false => advance; return .bool false
    | .mark .dots =>
      if (← scope).isVararg then advance; return .dots
      else fail "cannot use '...' outside a vararg function"
    | .mark .openBrace => parseTable fuel level
    | .mark .function =>
      advance
      return .function (← parseBody fuel level false (← line))
    | _ => parseSuffixed fuel level

/-- A name or an expression in parentheses. -/
def parsePrimary : Nat → Nat → Parse Expr
  | 0, _ => fail "expression too deep"
  | fuel + 1, level => do
    match (← current).token with
    | .name s => advance; return .name s 0
    | .mark .openParen =>
      let l ← line
      advance
      let e ← parseOperators fuel level 0
      expectClosing .closeParen .openParen l
      return .paren (e.settle (← lastLine))
    | _ => fail "unexpected symbol"

/-- A primary expression with accesses and calls. -/
def parseSuffixed : Nat → Nat → Parse Expr
  | 0, _ => fail "expression too deep"
  | fuel + 1, level => do
    let e ← parsePrimary fuel level
    parseSuffixes fuel level e

/-- The accesses and calls after an expression. -/
def parseSuffixes : Nat → Nat → Expr → Parse Expr
  | 0, _, _ => fail "expression too deep"
  | fuel + 1, level, e => do
    match (← current).token with
    | .mark .dot =>
      let e := e.settle (← lastLine)
      advance
      let s ← expectName
      parseSuffixes fuel level (.index e (.string s) 0)
    | .mark .openBracket =>
      let e := e.settle (← lastLine)
      let k ← parseKey fuel level
      parseSuffixes fuel level (.index e k 0)
    | .mark .colon =>
      advance
      let s ← expectName
      let nameLine ← lastLine
      let l ← line
      let args ← parseArguments fuel level
      parseSuffixes fuel level (.method (e.settle nameLine) s args nameLine l)
    | .mark .openParen | .string _ | .mark .openBrace =>
      let e := e.settle (← lastLine)
      let l ← line
      let args ← parseArguments fuel level
      parseSuffixes fuel level (.call e args l)
    | _ => return e

/-- A key in brackets. -/
def parseKey : Nat → Nat → Parse Expr
  | 0, _ => fail "expression too deep"
  | fuel + 1, level => do
    advance
    let k ← parseOperators fuel level 0
    let k := k.settle (← lastLine)
    expect .closeBracket
    return k

/-- The arguments of a call. -/
def parseArguments : Nat → Nat → Parse (List Expr)
  | 0, _ => fail "expression too deep"
  | fuel + 1, level => do
    match (← current).token with
    | .string s => advance; return [.string s]
    | .mark .openBrace => return [← parseTable fuel level]
    | .mark .openParen =>
      let l ← line
      advance
      if ← accept .closeParen then return []
      else
        let args ← parseExprs fuel level
        expectClosing .closeParen .openParen l
        return settleLast (← lastLine) args
    | _ => fail "function arguments expected"

/-- Expressions with commas between; the last one is not settled. -/
def parseExprs : Nat → Nat → Parse (List Expr)
  | 0, _ => fail "expression too deep"
  | fuel + 1, level => do
    let e ← parseOperators fuel level 0
    if ← accept .comma then
      let e := e.settle (← lastLine)
      return e :: (← parseExprs fuel level)
    else return [e]

/-- A table constructor. -/
def parseTable : Nat → Nat → Parse Expr
  | 0, _ => fail "expression too deep"
  | fuel + 1, level => do
    let l ← line
    expect .openBrace
    let fields ← parseFields fuel level
    expectClosing .closeBrace .openBrace l
    return .table (settleLastField (← lastLine) fields)

/-- The fields of a table constructor, up to its end. -/
def parseFields : Nat → Nat → Parse (List Field)
  | 0, _ => fail "expression too deep"
  | fuel + 1, level => do
    if ← at? .closeBrace then return []
    else
      -- A name is a key only if the next token assigns to it.
      let next? := (((← get).rest.drop 1).head?).map (·.token)
      let f ← match (← current).token, next? with
        | .name n, some (Token.mark .assign) => do
          advance
          advance
          let e ← parseOperators fuel level 0
          let l ← lastLine
          pure (Field.entry (.string n) (e.settle l) l)
        | .mark .openBracket, _ => do
          let k ← parseKey fuel level
          expect .assign
          let e ← parseOperators fuel level 0
          let l ← lastLine
          pure (Field.entry k (e.settle l) l)
        | .name _, none => do
          -- the source cannot be read on after the name
          advance
          fail "unexpected symbol"
        | _, _ => do
          let e ← parseOperators fuel level 0
          pure (Field.item e)
      if ← acceptSeparator then
        let l ← lastLine
        -- An item at the end is fetched after the closing bracket, as many values as it has.
        let atEnd ← at? .closeBrace
        let f := match f with
          | .item e => Field.item (if atEnd then e else e.settle l)
          | f => f
        return f :: (← parseFields fuel level)
      else return [f]

/-- The parameters and the body of a function. -/
def parseBody : Nat → Nat → Bool → Nat → Parse FunctionBody
  | 0, _, _, _ => fail "expression too deep"
  | fuel + 1, level, isMethod, l => do
    modify fun s => { s with scopes := ⟨[], [⟨0, false, [], []⟩], false, l⟩ :: s.scopes }
    expect .openParen
    let self : List ByteArray := if isMethod then ["self".toUTF8] else []
    declare (self.map (·, .regular))
    let (names, isVararg) ← if ← at? .closeParen then pure ([], false) else parseParameters fuel []
    declare (names.map (·, .regular))
    modifyScope fun f => { f with isVararg }
    expect .closeParen
    let body ← parseBlock fuel level
    expectClosing .end .function l
    -- The block of the parameters is closed as well: jumps that are left have no label.
    closeBlock
    modify fun s => { s with scopes := s.scopes.drop 1 }
    return .mk (self ++ names) isVararg body l

/-- Statements up to the end of their block. -/
def parseBlock : Nat → Nat → Parse Block
  | 0, _ => fail "block too deep"
  | fuel + 1, level => do
    let t := (← current).token
    if endsBlock true t then return []
    else if t == .mark .return then return [← parseReturn fuel (← enter level)]
    else
      let first ← parseStatement fuel level
      return first ++ (← parseBlock fuel level)

/-- A return statement, which ends its block. -/
def parseReturn : Nat → Nat → Parse Stat
  | 0, _ => fail "block too deep"
  | fuel + 1, level => do
    let l ← line
    advance
    let t := (← current).token
    let values ← if endsBlock true t || t == .mark .semicolon then pure [] else do
      let es ← parseExprs fuel level
      pure (settleLast (← lastLine) es)
    let _ ← accept .semicolon
    return .ret values l

/-- A block of its own in a loop or a branch. -/
def parseInner : Nat → Nat → Parse Block
  | 0, _ => fail "block too deep"
  | fuel + 1, level => inBlock false (parseBlock fuel level)

/-- A statement; none for a semicolon, and several where labels follow one another. -/
def parseStatement : Nat → Nat → Parse Block
  | 0, _ => fail "block too deep"
  | fuel + 1, level => do
    let level ← enter level
    let l ← line
    match (← current).token with
    | .mark .semicolon => advance; return []
    | .mark .if =>
      let s ← parseIf fuel level
      expectClosing .end .if l
      return [s]
    | .mark .while =>
      advance
      let c ← parseOperators fuel level 0
      let c := c.settle (← lastLine)
      let body ← inBlock true do
        expect .do
        let body ← parseInner fuel level
        expectClosing .end .while l
        return body
      return [.loop c body]
    | .mark .do =>
      advance
      let body ← parseInner fuel level
      expectClosing .end .do l
      return [.block body]
    | .mark .for =>
      inBlock true do
        advance
        let s ← expectName
        let loop ← parseFor fuel level s l
        expectClosing .end .for l
        return [loop]
    | .mark .repeat =>
      advance
      inBlock true do
        -- The condition is still inside the scope of the body.
        inBlock false do
          let body ← parseBlock fuel level
          expectClosing .until .repeat l
          let c ← parseOperators fuel level 0
          return [.repeatUntil body (c.settle (← lastLine))]
    | .mark .function =>
      advance
      let s ← expectName
      let (target, isMethod) ← parseFunctionName fuel (.name s 0)
      let f ← parseBody fuel level isMethod l
      checkAssignable target
      return [.assign [target.settle l] [.function f] l]
    | .mark .local =>
      advance
      if ← accept .function then
        let s ← expectName
        checkLocals 1
        -- A function is in scope in its own body.
        declare [(s, .regular)]
        let f ← parseBody fuel level false (← line)
        return [.localFunction s f]
      else
        let names ← parseLocals fuel []
        let values ← if ← accept .assign then parseExprs fuel level else pure []
        let last ← lastLine
        -- The names are not in scope in their values.
        declare names
        return [.locals names (settleLast last values) last]
    | .mark .doubleColon => parseLabel fuel level l
    | .mark .break =>
      advance
      modifyScope fun f => f.addJump ⟨none, l, f.size⟩
      return [.leave]
    | .mark .goto =>
      advance
      let l ← line
      let s ← expectName
      -- A label that was read already lies before the jump, and needs no search.
      if ((← scope).findLabel s).isNone then
        modifyScope fun f => f.addJump ⟨some s, l, f.size⟩
      return [.goto s]
    | _ =>
      let e ← parseSuffixed fuel level
      if (← at? .assign) || (← at? .comma) then return [← parseAssignment fuel level e []]
      else if e.isCall then return [.call e]
      else fail "syntax error"

/-- A condition with its branches, up to the closing keyword. -/
def parseIf : Nat → Nat → Parse Stat
  | 0, _ => fail "block too deep"
  | fuel + 1, level => do
    advance
    let c ← parseOperators fuel level 0
    expect .then
    let c := c.settle (← lastLine)
    let yes ← parseInner fuel level
    -- A further condition is the other branch, and the closing keyword belongs to all of them.
    if ← at? .elseif then return .branch c yes [← parseIf fuel level]
    else if ← accept .else then return .branch c yes (← parseInner fuel level)
    else return .branch c yes []

/-- A loop over numbers or values after its first name, up to the closing keyword. -/
def parseFor : Nat → Nat → ByteArray → Nat → Parse Stat
  | 0, _, _, _ => fail "block too deep"
  | fuel + 1, level, s, l => do
    if ← at? .assign then
      checkLocals 4
      advance
      let start ← parseSettled fuel level
      expect .comma
      let stop ← parseSettled fuel level
      let step? ← if ← accept .comma then some <$> parseSettled fuel level else pure none
      -- Start, limit and step are hidden locals of the loop.
      declare (List.replicate 3 (loopState, .regular))
      expect .do
      let prepareLine ← lastLine
      let body ← inBlock false do
        declare [(s, .regular)]
        parseInner fuel level
      return .numericFor s start stop step? body prepareLine l
    else if (← at? .comma) || (← at? .in) then
      checkLocals 5
      let names ← parseLoopNames fuel [s]
      expect .in
      let valuesLine ← line
      let values ← parseExprs fuel level
      let values := settleLast (← lastLine) values
      -- So are the function, its state, the control value and the one to be closed.
      declare (List.replicate 4 (loopState, .regular))
      expect .do
      let body ← inBlock false do
        declare (names.map (·, .regular))
        parseInner fuel level
      return .genericFor names values body valuesLine
    else fail "'=' or 'in' expected"

/-- An expression whose value is fetched as soon as it is read. -/
def parseSettled : Nat → Nat → Parse Expr
  | 0, _ => fail "expression too deep"
  | fuel + 1, level => do
    let e ← parseOperators fuel level 0
    return e.settle (← lastLine)

/-- An assignment after a target; the targets before it are given latest first. -/
def parseAssignment : Nat → Nat → Expr → List Expr → Parse Stat
  | 0, _, _, _ => fail "expression too deep"
  | fuel + 1, level, target, targets => do
    -- Calls and values are no targets.
    if !target.isTarget then fail "syntax error"
    checkAssignable target
    if ← accept .comma then
      let next ← parseSuffixed fuel level
      parseAssignment fuel (← enter level) next (target :: targets)
    else
      expect .assign
      let values ← parseExprs fuel level
      let last ← lastLine
      return .assign ((target :: targets).reverse.map (·.settle last)) (settleLast last values) last

/-- A label, after which empty statements and further labels are at the same place. -/
def parseLabel : Nat → Nat → Nat → Parse Block
  | 0, _, _ => fail "block too deep"
  | fuel + 1, level, l => do
    advance
    let s ← expectName
    expect .doubleColon
    let more ← parseNoOps fuel level
    let f ← scope
    if let some old := f.findLabel s then
      failWith (utf8 "label '" ++ beforeNul s.toList
        ++ utf8 s!"' already defined on line {old.line}") false
    -- at the end of a block its locals are out of scope
    let reached := if endsBlock false (← current).token
      then (f.blocks.head?.map (·.base)).getD 0 else f.size
    let (f, bad) := f.addLabel s l reached
    modifyScope fun _ => f
    match bad with
    | some (j, name) =>
      failWith (utf8 "<goto " ++ beforeNul s.toList
        ++ utf8 s!"> at line {j.line} jumps into the scope of local '"
        ++ beforeNul name.toList ++ utf8 "'") false
    | none => return .label s :: more

/-- The empty statements and labels after a label. -/
def parseNoOps : Nat → Nat → Parse Block
  | 0, _ => fail "block too deep"
  | fuel + 1, level => do
    if (← at? .semicolon) || (← at? .doubleColon) then
      let first ← parseStatement fuel level
      return first ++ (← parseNoOps fuel level)
    else return []

end

/-- A whole chunk. -/
def parseChunk (fuel level : Nat) : Parse Block := do
  let body ← parseBlock fuel level
  if (← current).token != .eof then fail "<eof> expected"
  closeBlock
  return body

end Parser

/-- The body of the chunk that a source spells, parsed with a number of levels already in use. -/
def Block.ofSource (level : Nat) (source : List UInt8) : Except CompileFault Block :=
  let read := Lexemes.ofSource source
  match read.lexemes.toList, read.fault? with
  | [], some f => .error (.syntaxFault f)
  | lexemes, fault? =>
    let scope : FunctionScope := ⟨[], [⟨0, false, [], []⟩], true, 0⟩
    match (Parser.parseChunk (16 * lexemes.length + 64) level).run ⟨lexemes, fault?, 1, [scope]⟩ with
    | .ok (body, _) => .ok body
    | .error e => .error e

end VaultConsole.Lua
