import VaultConsole.Lua.Action
import VaultConsole.Lua.Arithmetic

/-!
# Metamethods

Operations on values that may be redefined by metatables: access, assignment, arithmetic, comparison,
concatenation, length and conversion to text.
-/

namespace VaultConsole.Lua

/-- What a metamethod stands in for. -/
inductive Event where
  | index | newindex | call | add | sub | mul | mod | pow | div | idiv | band | bor | bxor | shl | shr
  | concat | unm | bnot | len | eq | lt | le | close
  deriving DecidableEq, Repr, Inhabited

namespace Event

/-- The name of an event in messages. -/
def name : Event → String
  | index => "index" | newindex => "newindex" | call => "call" | add => "add" | sub => "sub"
  | mul => "mul" | mod => "mod" | pow => "pow" | div => "div" | idiv => "idiv" | band => "band"
  | bor => "bor" | bxor => "bxor" | shl => "shl" | shr => "shr" | concat => "concat" | unm => "unm"
  | bnot => "bnot" | len => "len" | eq => "eq" | lt => "lt" | le => "le" | close => "close"

def indexKey : ByteArray := "__index".toUTF8

def newindexKey : ByteArray := "__newindex".toUTF8

def callKey : ByteArray := "__call".toUTF8

/-- The key of an event in a metatable. -/
def key : Event → ByteArray
  | index => indexKey
  | newindex => newindexKey
  | call => callKey
  | e => ("__" ++ e.name).toUTF8

/-- The event of an operator. -/
def ofOperator : Operator → Event
  | .add => add | .sub => sub | .mul => mul | .div => div | .floorDiv => idiv | .mod => mod
  | .pow => pow | .bitAnd => band | .bitOr => bor | .bitXor => bxor | .shiftLeft => shl
  | .shiftRight => shr | .eq | .ne => eq | .lt | .gt => lt | .le | .ge => le

end Event

/-- The metamethod of a value for an event; nil if there is none. -/
def Heap.metamethod (h : Heap) (v : Value) (e : Event) : Value := h.metafield v e.key

def nameKey : ByteArray := "__name".toUTF8

/-- The name of the type of a value, which the metatable of a table or a host object can give. -/
def Heap.typeName (h : Heap) (v : Value) : ByteArray :=
  match v.type with
  | .table | .userdata =>
    match h.metafield v nameKey with
    | .string s => s
    | _ => v.type.name.toUTF8
  | t => t.name.toUTF8

namespace Metamethod

/-- The longest chain of metatables that is followed. -/
def maxChain : Nat := 2000

/-- The operand position that stands for a value which is no operand. -/
def noOperand : Nat := 9

/-! ## Access -/

/-- The value of an object under a key, along a chain of metatables. -/
def indexFrom (position : Nat) : Nat → Value → Value → Action Value
  | 0, _, _ => Action.fail (.runtime "'__index' chain too long; possibly a loop".toUTF8)
  | fuel + 1, object, key => {
    run := fun h =>
      match object with
      | .table r =>
        let v := h.rawGet r key
        if !v.isNil then .done v h
        else
          match h.metafield object Event.indexKey with
          | .nil => .done .nil h
          -- A function is called; any other value is looked into in turn.
          | f => if f.type == .function then (Action.call1 f [object, key]).run h
            else (indexFrom noOperand fuel f key).run h
      | _ =>
        match h.metafield object Event.indexKey with
        | .nil =>
          let t := h.typeName object
          .fail (.operand position "index" t) h
        | f => if f.type == .function then (Action.call1 f [object, key]).run h
          else (indexFrom noOperand fuel f key).run h
    grows := fun h => by
      split
      · simp only []
        split
        · exact .done (.refl h)
        · split
          · exact .done (.refl h)
          · split
            · exact (Action.call1 _ _).grows h
            · exact (indexFrom noOperand fuel _ key).grows h
      · split
        · exact .fail (.refl h)
        · split
          · exact (Action.call1 _ _).grows h
          · exact (indexFrom noOperand fuel _ key).grows h }

/-- The value of an object under a key. -/
def index (object key : Value) : Action Value := indexFrom 0 maxChain object key

/-- Puts a value into a table under a key, without metamethods. -/
def rawSet (r : Nat) (key value : Value) : Action Unit where
  run h :=
    -- The two values that are no keys: nil, and the number that does not equal itself.
    match Table.normalize key with
    | .nil => .fail (.runtime "table index is nil".toUTF8) h
    | .float b =>
      if Real.isNaN b then .fail (.runtime "table index is NaN".toUTF8) h
      else .done () (h.rawSet r (.float b) value)
    | key =>
      let h := h.rawSet r key value
      if h.isExhausted then .fail .memory h else .done () h
  grows h := by
    split
    · exact .fail (.refl h)
    · rename_i b normal
      split
      · exact .fail (.refl h)
      · rename_i number
        have isKey : Table.IsKey (.float b) := Table.isKey_normalize normal nofun fun b' same => by
          cases same
          simpa using number
        exact .done (h.grows_rawSet r isKey value)
    · rename_i solid noFloat
      have isKey : Table.IsKey (Table.normalize key) :=
        Table.isKey_normalize rfl solid fun b same => absurd same (noFloat b)
      simp only []
      split
      · exact .fail (h.grows_rawSet r isKey value)
      · exact .done (h.grows_rawSet r isKey value)

/-- Puts a value into an object under a key, along a chain of metatables. -/
def setIndexFrom (position : Nat) : Nat → Value → Value → Value → Action Unit
  | 0, _, _, _ => Action.fail (.runtime "'__newindex' chain too long; possibly a loop".toUTF8)
  | fuel + 1, object, key, value => {
    run := fun h =>
      match object with
      | .table r =>
        let m := (h.table r).metatable?
        -- A key that is there is overwritten without a metamethod.
        if m.isNone || !(h.rawGet r key).isNil then (rawSet r key value).run h
        else
          match h.metafield object Event.newindexKey with
          | .nil => (rawSet r key value).run h
          | f => if f.type == .function then (do let _ ← Action.call f [object, key, value]).run h
            else (setIndexFrom noOperand fuel f key value).run h
      | _ =>
        match h.metafield object Event.newindexKey with
        | .nil =>
          let t := h.typeName object
          .fail (.operand position "index" t) h
        | f => if f.type == .function then (do let _ ← Action.call f [object, key, value]).run h
          else (setIndexFrom noOperand fuel f key value).run h
    grows := fun h => by
      split
      · simp only []
        split
        · exact (rawSet _ key value).grows h
        · split
          · exact (rawSet _ key value).grows h
          · split
            · exact Action.grows _ h
            · exact (setIndexFrom noOperand fuel _ key value).grows h
      · split
        · exact .fail (.refl h)
        · split
          · exact Action.grows _ h
          · exact (setIndexFrom noOperand fuel _ key value).grows h }

/-- Puts a value into an object under a key. -/
def setIndex (object key value : Value) : Action Unit := setIndexFrom 0 maxChain object key value

/-! ## Operators -/

/-- The metamethod of the first of two values that has one for an event. -/
def ofEither (e : Event) (a b : Value) : Action Value := Action.inspect fun h =>
  match h.metamethod a e with
  | .nil => h.metamethod b e
  | f => f

/-- Fails because of the second operand, or of the first one if that is wrong too. -/
def failOperand (operation : String) (isRight : Value → Bool) (a b : Value) : Action α :=
  -- The second operand is to blame only if the first one would do.
  let (position, v) := if isRight a then (1, b) else (0, a)
  Action.failBy fun h => .operand position operation (h.typeName v)

/-- The result of an arithmetic operator where the operands do not give one by themselves. -/
def arithmeticEvent (op : Operator) (a b : Value) (o : Outcome) : Action Value := do
  match ← ofEither (Event.ofOperator op) a b with
  | .nil =>
    match o with
    -- Both are numbers, but one of them has no integer: the first of these is told.
    | .noInteger =>
      Action.fail (.noInteger (if ((a.number?.bind Number.toInt?)).isNone then 0 else 1))
    | _ =>
      failOperand (if Arithmetic.isBitwise op then "perform bitwise operation on"
        else "perform arithmetic on") (fun v => v.number?.isSome) a b
  | f => Action.call1 f [a, b]

/-- The result of an arithmetic operator. -/
def arithmetic (op : Operator) (a b : Value) : Action Value :=
  match Arithmetic.apply op a b with
  | .value v => pure v
  | .divisionByZero => Action.fail (.runtime "attempt to perform 'n//0'".toUTF8)
  | .remainderByZero => Action.fail (.runtime "attempt to perform 'n%0'".toUTF8)
  | o => arithmeticEvent op a b o

/-- The negative of a value. -/
def negate (a : Value) : Action Value :=
  match a with
  | .int n => pure (.int (-n))
  | .float b => pure (.float (Real.neg b))
  | _ => do
    match ← ofEither .unm a a with
    | .nil => failOperand "perform arithmetic on" (fun v => v.number?.isSome) a a
    | f => Action.call1 f [a, a]

/-- The bits of a value, each changed. -/
def complement (a : Value) : Action Value :=
  match a.number?.map Number.toInt? with
  | some (some n) => pure (.int (~~~n))
  | known => do
    match ← ofEither .bnot a a with
    | .nil =>
      if known.isSome then Action.fail (.noInteger 0)
      else failOperand "perform bitwise operation on" (fun v => v.number?.isSome) a a
    | f => Action.call1 f [a, a]

/-- The length of a value. -/
def length (a : Value) : Action Value :=
  match a with
  | .string s => pure (.int (Int64.ofNat s.size))
  | _ => do
    match ← Action.inspect (·.metamethod a .len) with
    | .nil =>
      match a with
      | .table r =>
        -- Where the border was found is kept for the next time it is looked for.
        Action.update (fun h =>
          let n := (h.table r).border.1
          (h.modifyTable r fun t => { t with limit := t.border.2 }, .int (Int64.ofNat n)))
          fun h => h.grows_modifyTable r fun _ lawful => lawful.withLimit lawful.border_le
      | _ => Action.failBy fun h => .operand 0 "get length of" (h.typeName a)
    | f => Action.call1 f [a, a]

/-- Whether two values are equal. -/
def equal (a b : Value) : Action Bool :=
  if a.rawEq b then pure true
  else match a, b with
    -- Only values of one type that has metatables of its own can be equal without being the same.
    | .table _, .table _ | .stream _, .stream _ | .failure _, .failure _ => do
      match ← ofEither .eq a b with
      | .nil => return false
      | f => return (← Action.call1 f [a, b]).isTruthy
    | _, _ => pure false

/-- Fails because two values have no order. -/
def failOrder (a b : Value) : Action α := Action.failBy fun h =>
  let s := h.typeName a
  let t := h.typeName b
  .runtime (if s == t then "attempt to compare two ".toUTF8 ++ s ++ " values".toUTF8
    else "attempt to compare ".toUTF8 ++ s ++ " with ".toUTF8 ++ t)

/-- Whether a value comes before another. -/
def less (a b : Value) : Action Bool :=
  match a, b with
  | .string s, .string t => pure (Arithmetic.stringLt s t)
  | _, _ =>
    match a.number?, b.number? with
    | some x, some y => pure (Arithmetic.numberLt x y)
    | _, _ => do
      match ← ofEither .lt a b with
      | .nil => failOrder a b
      | f => return (← Action.call1 f [a, b]).isTruthy

/-- Whether a value does not come after another. Without a metamethod of its own, it is that the other
does not come before it. -/
def lessEqual (a b : Value) : Action Bool :=
  match a, b with
  | .string s, .string t => pure (!Arithmetic.stringLt t s)
  | _, _ =>
    match a.number?, b.number? with
    | some x, some y => pure (Arithmetic.numberLe x y)
    | _, _ => do
      match ← ofEither .le a b with
      | .nil =>
        -- The other way round, and negated.
        match ← ofEither .lt b a with
        | .nil => failOrder a b
        | f => return !(← Action.call1 f [b, a]).isTruthy
      | f => return (← Action.call1 f [a, b]).isTruthy

/-- The result of an operator with two operands. -/
def operate (op : Operator) (a b : Value) : Action Value :=
  match op with
  | .eq => return .bool (← equal a b)
  | .ne => return .bool (!(← equal a b))
  | .lt => return .bool (← less a b)
  | .gt => return .bool (← less b a)
  | .le => return .bool (← lessEqual a b)
  | .ge => return .bool (← lessEqual b a)
  | op => arithmetic op a b

/-! ## Concatenation -/

/-- The pieces of the leading values that have bytes, put before pieces already there, and the values
after them. -/
def takePieces (pieces : List ByteArray) : List Value → List ByteArray × List Value
  | [] => (pieces, [])
  | v :: vs =>
    match v.toBytes? with
    | some s => takePieces (s :: pieces) vs
    | none => (pieces, v :: vs)

/-- The pieces in one. -/
def join (pieces : List ByteArray) : ByteArray := pieces.foldl (· ++ ·) ByteArray.empty

/-- The concatenation of values, given last first, with a value at their end. -/
def concatOnto : Nat → Value → List Value → Action Value
  | _, right, [] => pure right
  | 0, right, _ => pure right
  | fuel + 1, right, left :: rest =>
    match right.toBytes?, left.toBytes? with
    | some r, some l => do
      -- Neighbours with bytes are put together at once, as far as they go.
      let (pieces, rest) := takePieces [l, r] rest
      Action.checkSize (pieces.foldl (fun n s => n + s.size) 0)
      concatOnto fuel (.string (join pieces)) rest
    | _, _ => do
      match ← ofEither .concat left right with
      | .nil =>
        -- The right one is to blame only if the left one would do.
        let wrong := if left.toBytes?.isSome then right else left
        let position := if left.toBytes?.isSome then rest.length + 1 else rest.length
        Action.failBy fun h => .operand position "concatenate" (h.typeName wrong)
      | f => concatOnto fuel (← Action.call1 f [left, right]) rest

/-- The concatenation of two values or more, from the end. -/
def concat (values : List Value) : Action Value :=
  match values.reverse with
  | [] => pure (.string ByteArray.empty)
  | right :: rest => concatOnto (values.length + 1) right rest

/-! ## Text -/

/-- Hexadecimal digits of a place. -/
def addressText (v : Value) : String := "0x" ++ String.ofList (Nat.toDigits 16 v.address)

/-- The text of a value, which its metatable can give. -/
def toText (v : Value) : Action ByteArray := do
  match ← Action.inspect (·.metafield v "__tostring".toUTF8) with
  | .nil =>
    match v with
    | .nil => return "nil".toUTF8
    | .bool b => return (if b then "true" else "false").toUTF8
    | .string s => return s
    | .int n => return (Number.int n).text.toUTF8
    | .float b => return (Number.float b).text.toUTF8
    | _ =>
      let name ← Action.inspect fun h => match h.metafield v nameKey with
        | .string s => s
        | _ => v.type.name.toUTF8
      -- A name is told up to its first NUL.
      return (beforeNul name.toList).toByteArray ++ (": " ++ addressText v).toUTF8
  | f =>
    match (← Action.call1 f [v]).toBytes? with
    | some s => return s
    | none => Action.failLocated "'__tostring' must return a string"

/-- The result of arithmetic on a string: operands that spell numbers count as those. -/
def stringArithmetic (op : StringArithmetic) (a b : Value) : Action Value := do
  let (operator, event) : Operator × Event := match op with
    | .add => (.add, .add)
    | .sub | .unm => (.sub, if op == .unm then .unm else .sub)
    | .mul => (.mul, .mul)
    | .mod => (.mod, .mod)
    | .pow => (.pow, .pow)
    | .div => (.div, .div)
    | .idiv => (.floorDiv, .idiv)
  match a.toNumber?, b.toNumber? with
  | some x, some y =>
    if op == .unm then negate (.ofNumber x) else arithmetic operator (.ofNumber x) (.ofNumber y)
  | _, _ =>
    -- The string library stands in for the first operand; the second one may know better.
    let f ← Action.inspect fun h => if b.type == .string then .nil else h.metamethod b event
    match f with
    | .nil =>
      Action.failLocated s!"attempt to {event.name} a '{a.type.name}' with a '{b.type.name}'"
    | f => Action.call1 f [a, b]

end Metamethod

end VaultConsole.Lua
