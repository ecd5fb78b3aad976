import VaultConsole.Lua.Library.Arguments

/-!
# Basic functions

The functions without a table, except those that change how the session goes on: raising and catching
errors and loading chunks.
-/

namespace VaultConsole.Lua.Library

/-- Digits of a number in a base, as a wrapping integer, and the bytes after them; `count` were read. -/
def takeInBase (base : Nat) : Nat → Int64 → List UInt8 → Option (Nat × Int64 × List UInt8)
  | count, n, [] => some (count, n, [])
  | count, n, b :: r =>
    let digit? : Option Nat :=
      if Numeral.isDigit b then some (b.toNat - 48)
      else if 97 ≤ b && b ≤ 122 then some (b.toNat - 87)
      else if 65 ≤ b && b ≤ 90 then some (b.toNat - 55)
      else none
    match digit? with
    | none => some (count, n, b :: r)
    | some d =>
      -- A digit beyond the base spoils the whole number.
      if d < base then takeInBase base (count + 1) (n * Int64.ofNat base + Int64.ofNat d) r else none

/-- The integer that the bytes spell in a base, blanks around it allowed. -/
def intInBase? (base : Nat) (bytes : List UInt8) : Option Int64 :=
  let (negative, r) := match bytes.dropWhile Numeral.isSpace with
    | 45 :: r => (true, r)
    | 43 :: r => (false, r)
    | r => (false, r)
  match takeInBase base 0 0 r with
  | some (count, n, r) =>
    if count > 0 && r.all Numeral.isSpace then some (if negative then -n else n) else none
  | none => none

/-- The number of an argument, or nil. -/
def tonumber (args : Args) : Action Value :=
  if args.isNone 2 then
    match args.get 1 with
    | .int n => pure (.int n)
    | .float b => pure (.float b)
    | .string s => pure (((Numeral.read? s.toList).map Value.ofNumber).getD .nil)
    | _ => do
      let _ ← args.any 1
      return .nil
  else do
    let base ← args.int 2
    match args.get 1 with
    | .string s =>
      if base < 2 || 36 < base then Action.failArgument 2 "base out of range"
      else return ((intInBase? base.toNatClampNeg s.toList).map Value.int).getD .nil
    | _ => args.failType 1 "string"

def metatableKey : ByteArray := "__metatable".toUTF8

/-- The metatable of a value, or what it shows instead of it. -/
def getmetatable (args : Args) : Action Value := do
  let v ← args.any 1
  Action.inspect fun h =>
    match h.metatable? v with
    | none => .nil
    | some m =>
      match (h.table m).get (.string metatableKey) with
      | .nil => .table m
      | shown => shown

/-- Gives a table a metatable, or takes it away. -/
def setmetatable (args : Args) : Action Value := do
  let r ← args.table 1
  let meta? ← match (args[1]? : Option Value) with
    -- Nil has to be there, and not only be missing.
    | some .nil => pure none
    | some (.table m) => pure (some m)
    | _ => args.failType 2 "nil or table"
  match ← Action.inspect (·.metafield (.table r) metatableKey) with
  | .nil =>
    Action.change (·.modifyTable r fun t => { t with metatable? := meta? })
      fun h => h.grows_modifyTable r fun _ lawful => lawful.withMetatable meta?
    return .table r
  | _ => Action.failLocated "cannot change a protected metatable"

/-- The next key of a table with its value. -/
def next (args : Args) : Action (List Value) := do
  let r ← args.table 1
  match ← Action.inspect fun h => (h.table r).next? (args.get 2) with
  | none => Action.fail (.runtime "invalid key to 'next'".toUTF8)
  | some none => return [.nil]
  | some (some (k, v)) => return [k, v]

/-- The arguments from a position on, or their number. -/
def select (args : Args) : Action (List Value) := do
  let n : Int := args.length
  if args.get 1 == .text "#" then return [Value.ofNat (args.length - 1)]
  else
    let i := (← args.int 1).toInt
    -- Negative positions count from the end.
    let i := if i < 0 then n + i else if i > n then n else i
    if i < 1 then Action.failArgument 1 "index out of range" else return args.drop i.toNat

/-- What the collector of memory answers. -/
def collectgarbage (args : Args) : Action Value := do
  let o ← args.option 1 (some "collect")
    ["stop", "restart", "collect", "count", "step", "setpause", "setstepmul", "isrunning",
      "generational", "incremental"]
  -- Nothing is ever collected: these are the answers of a collector with nothing to do.
  match o with
  | "count" =>
    -- In units of 1024 bytes.
    let used ← Action.inspect (·.used)
    return .float (Real.div (Real.ofInt (Int64.ofNat (22000 + used))) (Real.ofInt 1024))
  | "step" =>
    let _ ← args.intOr 2 0
    return .bool true
  | "setpause" =>
    let _ ← args.intOr 2 0
    return .int 200
  | "setstepmul" =>
    let _ ← args.intOr 2 0
    return .int 100
  | "isrunning" => return .bool true
  | "generational" | "incremental" => return .text "incremental"
  | _ => return .int 0

/-- Carries out a basic function. -/
def base (f : BaseFunction) (args : Args) : Action (List Value) :=
  match f with
  | .assert => do
    if (args.get 1).isTruthy then return args
    else
      let _ ← args.any 1
      match (args[1]? : Option Value) with
      | none => Action.failLocated "assertion failed!"
      | some (.string s) => Action.fail (.located s)
      | some v => Action.fail (.value v)
  | .collectgarbage => do return [← collectgarbage args]
  | .getmetatable => do return [← getmetatable args]
  | .ipairs => do return [.builtin (.base .ipairsStep), ← args.any 1, .int 0]
  | .ipairsStep => do
    let i := (← args.int 2) + 1
    match ← Metamethod.index (args.get 1) (.int i) with
    | .nil => return [.nil]
    | v => return [.int i, v]
  | .next => next args
  | .pairs => do
    let v ← args.any 1
    match ← Action.inspect (·.metafield v "__pairs".toUTF8) with
    | .nil => return [.builtin (.base .next), v, .nil]
    | f =>
      let rs ← Action.call f [v]
      return [rs.getD 0 .nil, rs.getD 1 .nil, rs.getD 2 .nil]
  | .rawequal => do
    let a ← args.any 1
    return [.bool (a.rawEq (← args.any 2))]
  | .rawget => do
    let r ← args.table 1
    let k ← args.any 2
    return [← Action.inspect (·.rawGet r k)]
  | .rawlen =>
    match args.get 1 with
    | .table r => do return [← Action.inspect fun h => Value.ofNat (h.table r).border.1]
    | .string s => pure [Value.ofNat s.size]
    | _ => args.failType 1 "table or string"
  | .rawset => do
    let r ← args.table 1
    let k ← args.any 2
    let v ← args.any 3
    Metamethod.rawSet r k v
    return [.table r]
  | .select => select args
  | .setmetatable => do return [← setmetatable args]
  | .tonumber => do return [← tonumber args]
  | .tostring => do
    let v ← args.any 1
    return [.string (← Metamethod.toText v)]
  | .type => do
    let v ← args.any 1
    return [.text v.type.name]
  | .warn => do
    let _ ← args.bytes 1
    -- Warnings are off, but all arguments have to be texts.
    let _ ← (List.range args.length).mapM fun i => args.bytes (i + 1)
    return []
  -- These are carried out by the machine, by the host, or with chunks and packages.
  | .dofile | .error | .load | .loadfile | .pcall | .xpcall | .print | .require => pure []

end VaultConsole.Lua.Library
