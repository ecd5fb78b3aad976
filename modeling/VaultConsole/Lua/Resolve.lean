import Std.Data.HashSet
import VaultConsole.Lua.Code

/-!
# From syntax trees to code

Every name of a tree becomes a local, a carried variable, a constant or a global, and every place gets a
number. A local goes into a cell when a function inside the function that declares it mentions its name and
something in the chunk assigns to that name, or when it is a function that mentions itself: only then does it
matter that the variable is shared. A cell that no closure takes does no harm.
-/

namespace VaultConsole.Lua

/-- A set of names. -/
abbrev Names := Std.HashSet ByteArray

/-! ## Names that functions mention -/

section

variable (add : α → ByteArray → α)

mutual

/-- Adds the names of an expression that stand inside a function; `inside` tells whether the expression
does. -/
def Expr.mentions (inside : Bool) (names : α) : Expr → α
  | .nil | .bool _ | .number _ | .string _ | .dots => names
  | .function f => f.mentions names
  | .name s _ => if inside then add names s else names
  | .index o k _ => k.mentions inside (o.mentions inside names)
  | .call f args _ => exprsMention inside (f.mentions inside names) args
  | .method o _ args _ _ => exprsMention inside (o.mentions inside names) args
  | .unary _ e _ => e.mentions inside names
  | .binary _ a b _ => b.mentions inside (a.mentions inside names)
  | .table fields => fieldsMention inside names fields
  | .paren e => e.mentions inside names

/-- Adds the names of several expressions. -/
def exprsMention (inside : Bool) (names : α) : List Expr → α
  | [] => names
  | e :: es => exprsMention inside (e.mentions inside names) es

/-- Adds the names of a table constructor. -/
def fieldsMention (inside : Bool) (names : α) : List Field → α
  | [] => names
  | .item e :: fs => fieldsMention inside (e.mentions inside names) fs
  | .entry k e _ :: fs => fieldsMention inside (e.mentions inside (k.mentions inside names)) fs

/-- Adds all names of a function. -/
def FunctionBody.mentions (names : α) : FunctionBody → α
  | .mk _ _ body _ => statsMention true names body

/-- Adds the names of a statement. -/
def Stat.mentions (inside : Bool) (names : α) : Stat → α
  | .locals _ values _ => exprsMention inside names values
  | .assign targets values _ => exprsMention inside (exprsMention inside names targets) values
  | .call e => e.mentions inside names
  | .block body => statsMention inside names body
  | .loop c body => statsMention inside (c.mentions inside names) body
  | .repeatUntil body c => c.mentions inside (statsMention inside names body)
  | .branch c yes no => statsMention inside (statsMention inside (c.mentions inside names) yes) no
  | .numericFor _ a b (some c) body _ _ =>
    statsMention inside (c.mentions inside (b.mentions inside (a.mentions inside names))) body
  | .numericFor _ a b none body _ _ =>
    statsMention inside (b.mentions inside (a.mentions inside names)) body
  | .genericFor _ values body _ => statsMention inside (exprsMention inside names values) body
  | .localFunction _ f => f.mentions names
  | .ret values _ => exprsMention inside names values
  | .leave | .goto _ | .label _ => names

/-- Adds the names of several statements. -/
def statsMention (inside : Bool) (names : α) : List Stat → α
  | [] => names
  | s :: ss => statsMention inside (s.mentions inside names) ss

end

end

/-- The names that functions inside statements mention. -/
def Block.mentioned (body : Block) : Names := statsMention (fun names s => names.insert s) false ∅ body

/-- Whether a function mentions a name. -/
def FunctionBody.hasName (f : FunctionBody) (name : ByteArray) : Bool :=
  f.mentions (fun found s => found || s == name) false

/-! ## Names that are assigned to -/

mutual

/-- Adds the names that functions inside an expression assign to. -/
def Expr.assigned (names : List ByteArray) : Expr → List ByteArray
  | .nil | .bool _ | .number _ | .string _ | .dots | .name .. => names
  | .function f => f.assigned names
  | .index o k _ => k.assigned (o.assigned names)
  | .call f args _ => exprsAssigned (f.assigned names) args
  | .method o _ args _ _ => exprsAssigned (o.assigned names) args
  | .unary _ e _ => e.assigned names
  | .binary _ a b _ => b.assigned (a.assigned names)
  | .table fields => fieldsAssigned names fields
  | .paren e => e.assigned names

/-- Adds the names that functions inside several expressions assign to. -/
def exprsAssigned (names : List ByteArray) : List Expr → List ByteArray
  | [] => names
  | e :: es => exprsAssigned (e.assigned names) es

/-- Adds the names that functions inside a table constructor assign to. -/
def fieldsAssigned (names : List ByteArray) : List Field → List ByteArray
  | [] => names
  | .item e :: fs => fieldsAssigned (e.assigned names) fs
  | .entry k e _ :: fs => fieldsAssigned (e.assigned (k.assigned names)) fs

/-- Adds the names that a function assigns to. -/
def FunctionBody.assigned (names : List ByteArray) : FunctionBody → List ByteArray
  | .mk _ _ body _ => statsAssigned names body

/-- Adds the names that an assignment has as targets, with those of functions inside. -/
def targetsAssigned (names : List ByteArray) : List Expr → List ByteArray
  | [] => names
  | .name s _ :: es => targetsAssigned (s :: names) es
  | e :: es => targetsAssigned (e.assigned names) es

/-- Adds the names that a statement assigns to. -/
def Stat.assigned (names : List ByteArray) : Stat → List ByteArray
  | .locals _ values _ => exprsAssigned names values
  | .assign targets values _ => exprsAssigned (targetsAssigned names targets) values
  | .call e => e.assigned names
  | .block body => statsAssigned names body
  | .loop c body => statsAssigned (c.assigned names) body
  | .repeatUntil body c => c.assigned (statsAssigned names body)
  | .branch c yes no => statsAssigned (statsAssigned (c.assigned names) yes) no
  | .numericFor _ a b (some c) body _ _ => statsAssigned (c.assigned (b.assigned (a.assigned names))) body
  | .numericFor _ a b none body _ _ => statsAssigned (b.assigned (a.assigned names)) body
  | .genericFor _ values body _ => statsAssigned (exprsAssigned names values) body
  | .localFunction _ f => f.assigned names
  | .ret values _ => exprsAssigned names values
  | .leave | .goto _ | .label _ => names

/-- Adds the names that several statements assign to. -/
def statsAssigned (names : List ByteArray) : List Stat → List ByteArray
  | [] => names
  | s :: ss => statsAssigned (s.assigned names) ss

end

namespace Resolve

/-! ## Scopes -/

/-- What a name in scope stands for. -/
inductive Binding where
  | var (v : LocalVar)
  /-- A constant that is known without running the chunk. -/
  | const (v : Value)
  deriving Inhabited

/-- A function that is being resolved. -/
structure Context where
  /-- Names in scope, the latest first. -/
  bindings : List (ByteArray × Binding)
  /-- Where the closure takes its variables from. -/
  captures : Array (CaptureSource × ByteArray)
  /-- Names that functions inside mention. -/
  shared : Names
  /-- The numbers of slots and cells in use, and the greatest so far. -/
  slots : Nat
  cells : Nat
  maxSlots : Nat
  maxCells : Nat
  /-- Whether leaving the scope closes a variable. -/
  closing : Bool
  deriving Inhabited

/-- The name of the chunk, the names that it assigns to, and the functions around the current place, the
innermost first. -/
structure State where
  chunk : ByteArray
  assigned : List ByteArray
  contexts : List Context

/-- Resolving changes the contexts. -/
abbrev Resolver := StateM State

/-- What a name is found to be. -/
inductive Found where
  | local (v : LocalVar)
  | carried (i : Nat)
  | const (v : Value)
  | global

/-- Finds a name; a variable of an outer function becomes one that the functions between carry along. -/
def find (name : ByteArray) : List Context → Found × List Context
  | [] => (.global, [])
  | c :: outer =>
    match c.bindings.lookup name with
    | some (.var v) => (.local v, c :: outer)
    | some (.const v) => (.const v, c :: outer)
    | none =>
      -- A variable that is carried along already is not taken again.
      match c.captures.findIdx? (·.2 == name) with
      | some i => (.carried i, c :: outer)
      | none =>
        let carry (from' : CaptureSource) (outer : List Context) : Found × List Context :=
          (.carried c.captures.size, { c with captures := c.captures.push (from', name) } :: outer)
        match find name outer with
        | (.local (.cell i), outer) => carry (.cell i) outer
        | (.local (.slot i), outer) => carry (.slot i) outer
        | (.carried i, outer) => carry (.carried i) outer
        | (found, outer) => (found, c :: outer)

/-- Finds a name from the current place. -/
def lookup (name : ByteArray) : Resolver Found := do
  let s ← get
  let (found, contexts) := find name s.contexts
  set { s with contexts }
  return found

/-- The innermost function. -/
def context : Resolver Context := do return (← get).contexts.headD default

/-- Changes the innermost function. -/
def modifyContext (f : Context → Context) : Resolver Unit :=
  modify fun s => { s with contexts := match s.contexts with
    | c :: outer => f c :: outer
    | [] => [] }

/-- Gives a new local its place; `assigned` tells that something assigns to it. -/
def declareAs (assigned : Bool) (name : ByteArray) : Resolver LocalVar := do
  let c ← context
  if assigned && c.shared.contains name then
    modifyContext fun c => { c with
      bindings := (name, .var (.cell c.cells)) :: c.bindings
      cells := c.cells + 1
      maxCells := max c.maxCells (c.cells + 1) }
    return .cell c.cells
  else
    modifyContext fun c => { c with
      bindings := (name, .var (.slot c.slots)) :: c.bindings
      slots := c.slots + 1
      maxSlots := max c.maxSlots (c.slots + 1) }
    return .slot c.slots

/-- Gives a new local its place. -/
def declare (name : ByteArray) : Resolver LocalVar := do
  declareAs ((← get).assigned.contains name) name

/-- Resolves inside a scope of its own, whose places are free again after it. -/
def inScope (r : Resolver α) : Resolver α := do
  let c ← context
  let a ← r
  -- What closures take and the greatest numbers stay.
  modifyContext fun d => { d with
    bindings := c.bindings, slots := c.slots, cells := c.cells, closing := c.closing }
  return a

/-- The value of an expression that is known without running the chunk. -/
def constant? : Expr → Resolver (Option Value)
  | .nil => return some .nil
  | .bool b => return some (.bool b)
  | .number n => return some (.ofNumber n)
  | .string s => return some (.string s)
  | .unary .neg (.number n) _ =>
    match n with
    | .int i => return some (.int (-i))
    | .float b => return some (.float (Real.neg b))
  | .name s _ => do
    match ← lookup s with
    | .const v => return some v
    | _ => return none
  | _ => return none

/-- The code that fetches a name. -/
def nameCode (s : ByteArray) (line : Nat) : Resolver Code := do
  match ← lookup s with
  | .local v => return .local v s
  | .carried i => return .carried i s
  | .const v => return .const v
  -- A global is a field of what the environment is at the time.
  | .global =>
    match ← lookup environmentName with
    | .local v => return .index (.local v environmentName) (.const (.string s)) line
    | .carried i => return .index (.carried i environmentName) (.const (.string s)) line
    | .const v => return .index (.const v) (.const (.string s)) line
    | .global => return .index (.const .nil) (.const (.string s)) line

/-- The operator of two operands that are taken at the same time. -/
def operator : BinaryOp → Operator
  | .add => .add | .sub => .sub | .mul => .mul | .div => .div | .floorDiv => .floorDiv
  | .mod => .mod | .pow => .pow | .bitAnd => .bitAnd | .bitOr => .bitOr | .bitXor => .bitXor
  | .shiftLeft => .shiftLeft | .shiftRight => .shiftRight
  | .eq => .eq | .ne => .ne | .lt => .lt | .le => .le | .gt => .gt | .ge => .ge
  | .concat | .and | .or => .eq

/-- The code of a binary operation. A concatenation whose right operand is one, in parentheses or not,
is a single chain. -/
def binaryCode (op : BinaryOp) (left right : Code) (line : Nat) : Code :=
  match op with
  | .and => .and left right
  | .or => .or left right
  | .concat =>
    match chain? right with
    | some (operands, line) => .concat (left :: operands) line
    | none => .concat [left, right] line
  | op => .binary (operator op) left right line
where
  /-- The operands of a chain, which may stand in parentheses. -/
  chain? : Code → Option (List Code × Nat)
    | .concat operands line => some (operands, line)
    | .paren inner => chain? inner
    | _ => none

/-! ## Trees -/

mutual

/-- The code of an expression. -/
def exprCode : Expr → Resolver Code
  | .nil => return .const .nil
  | .bool b => return .const (.bool b)
  | .number n => return .const (.ofNumber n)
  | .string s => return .const (.string s)
  | .dots => return .dots
  | .function f => return .function (← functionCode f)
  | .name s line => nameCode s line
  | .index o k line => do
    let o ← exprCode o
    return .index o (← exprCode k) line
  | .call f args line => do
    let f ← exprCode f
    return .call f (← exprCodes args) line
  | .method o s args nameLine line => do
    let o ← exprCode o
    return .method o s (← exprCodes args) nameLine line
  | .unary op e line => return .unary op (← exprCode e) line
  | .binary op a b line => do
    let a ← exprCode a
    return binaryCode op a (← exprCode b) line
  | .table fields => do
    let codes ← fieldCodes fields
    -- Room is made for the items that are one value each.
    let items := codes.countP fun
      | .item e => !e.isMulti
      | .entry .. => false
    return .table codes items (codes.countP fun
      | .item _ => false
      | .entry .. => true)
  | .paren e => return .paren (← exprCode e)

/-- The code of several expressions. -/
def exprCodes : List Expr → Resolver (List Code)
  | [] => return []
  | e :: es => do
    let c ← exprCode e
    return c :: (← exprCodes es)

/-- The code of table fields. -/
def fieldCodes : List Field → Resolver (List CodeField)
  | [] => return []
  | .item e :: fs => do
    let c ← exprCode e
    return .item c :: (← fieldCodes fs)
  | .entry k e line :: fs => do
    let k ← exprCode k
    let c ← exprCode e
    return .entry k c line :: (← fieldCodes fs)

/-- The code of a function. -/
def functionCode : FunctionBody → Resolver Proto
  | .mk params isVararg body _ => do
    let fresh : Context := ⟨[], #[], Block.mentioned body, 0, 0, 0, 0, false⟩
    modify fun s => { s with contexts := fresh :: s.contexts }
    let places ← params.mapM declare
    let steps ← statCodes body
    let c ← context
    modify fun s => { s with contexts := s.contexts.drop 1 }
    return .mk (← get).chunk places isVararg c.maxSlots c.maxCells c.captures.toList steps

/-- The code of a statement. -/
def statCode : Stat → Resolver Step
  | .locals names values line => do
    -- Only the last name can be a constant that takes no place, if its value is one.
    let known ← if names.length = values.length && names.getLast?.any (·.2 == .const) then
        match values.getLast? with
        | some e => constant? e
        | none => pure none
      else pure none
    let codes ← exprCodes values
    match known, names.getLast? with
    | some v, some (name, _) =>
      let vars ← names.dropLast.mapM fun n => declare n.1
      modifyContext fun c => { c with bindings := (name, .const v) :: c.bindings }
      return .locals vars codes.dropLast
    | _, _ =>
      let vars ← names.mapM fun n => declare n.1
      match names.findIdx? (·.2 == .close) with
      | some i =>
        modifyContext fun c => { c with closing := true }
        return .closing vars codes i ((names[i]?.map (·.1)).getD ByteArray.empty) line
      | none => return .locals vars codes
  | .assign targets values line => do
    let ts ← exprCodes targets
    return .assign ts (← exprCodes values) line
  | .call e => return .call (← exprCode e)
  | .block body => return .block (← inScope (statCodes body))
  | .loop c body => do
    let c ← exprCode c
    return .loop c (← inScope (statCodes body))
  | .repeatUntil body c => inScope do
    let steps ← statCodes body
    -- The condition is the last statement of the body, and sees its locals.
    return .repeat (steps ++ [.leaveIf (← exprCode c)])
  | .branch c yes no => do
    let c ← exprCode c
    let yes ← inScope (statCodes yes)
    return .branch c yes (← inScope (statCodes no))
  | .numericFor s a b none body prepareLine line => do
    let a ← exprCode a
    let b ← exprCode b
    inScope do
      let v ← declare s
      return .numericFor v a b (.const (.int 1)) (← statCodes body) prepareLine line
  | .numericFor s a b (some step) body prepareLine line => do
    let a ← exprCode a
    let b ← exprCode b
    let step ← exprCode step
    inScope do
      let v ← declare s
      return .numericFor v a b step (← statCodes body) prepareLine line
  | .genericFor names values body line => do
    let values ← exprCodes values
    inScope do
      -- The fourth value of the loop is closed when the body is left.
      modifyContext fun c => { c with closing := true }
      let vars ← names.mapM declare
      return .genericFor vars values (← statCodes body) line
  | .localFunction s f => do
    let v ← if f.hasName s then declareAs true s else declare s
    return .localFunction v (← functionCode f)
  | .ret values line => do
    -- Where a variable has to be closed after the call, it cannot take the place of the running function.
    let closing := (← context).closing
    match ← exprCodes values with
    | [.call f args l] =>
      return if closing then .ret [.call f args l] line else .tailCall (.call f args l)
    | [.method o s args n l] =>
      return if closing then .ret [.method o s args n l] line else .tailCall (.method o s args n l)
    | codes => return .ret codes line
  | .leave => return .leave
  | .goto s => return .goto s
  | .label s => return .label s

/-- The code of several statements. -/
def statCodes : List Stat → Resolver (List Step)
  | [] => return []
  | s :: ss => do
    let c ← statCode s
    return c :: (← statCodes ss)

end

end Resolve

/-- The function that a chunk is: it takes any arguments and carries the globals along. -/
def Proto.ofBlock (chunk : ByteArray) (body : Block) : Proto :=
  let main : Resolve.Context :=
    ⟨[], #[(.carried 0, environmentName)], body.mentioned, 0, 0, 0, 0, false⟩
  let (steps, s) := (Resolve.statCodes body).run ⟨chunk, statsAssigned [] body, [main]⟩
  let c := s.contexts.headD default
  .mk chunk [] true c.maxSlots c.maxCells c.captures.toList steps

end VaultConsole.Lua
