import VaultConsole.Lua.Library.Arguments

/-!
# Functions on tables

These functions access tables with metamethods. Sorting exchanges elements in place and calls the order
in a fixed sequence of comparisons, which an order that is none can make fail.
-/

namespace VaultConsole.Lua.Library

/-- What a function does with a table: reading, writing, and asking for its length. -/
structure TableUse where
  read : Bool
  write : Bool
  length : Bool

/-- Fails if an argument is neither a table nor an object whose metatable makes it usable like one. -/
def checkTable (args : Args) (n : Nat) (use : TableUse) : Action Unit :=
  match args.get n with
  | .table _ => pure ()
  | v => do
    let has (name : String) : Action Bool :=
      Action.inspect fun h => !(h.metafield v name.toUTF8).isNil
    let readable ← if use.read then has "__index" else pure true
    let writable ← if use.write then has "__newindex" else pure true
    let measured ← if use.length then has "__len" else pure true
    let hasMeta ← Action.inspect fun h => (h.metatable? v).isSome
    if hasMeta && readable && writable && measured then pure ()
    else
      let _ ← args.table n
      pure ()

/-- The length of a value as an integer. -/
def lengthOf (v : Value) : Action Int64 := do
  match ← Metamethod.length v with
  | .int n => return n
  | n =>
    match n.toInt? with
    | some n => return n
    | none => Action.failLocated "object length is not an integer"

/-- The value of an object under an integer. -/
def getAt (t : Value) (i : Int64) : Action Value := Metamethod.index t (.int i)

/-- Puts a value into an object under an integer. -/
def setAt (t : Value) (i : Int64) (v : Value) : Action Unit := Metamethod.setIndex t (.int i) v

/-- Copies the value at `fetch + i` to `store + i` for each `i` from zero on, `n` of them. -/
def copyUp (source target : Value) (fetch store : Int64) : Nat → Int64 → Action Unit
  | 0, _ => pure ()
  | n + 1, i => do
    setAt target (store + i) (← getAt source (fetch + i))
    copyUp source target fetch store n (i + 1)

/-- The same from the last `i` to zero. -/
def copyDown (source target : Value) (fetch store : Int64) : Nat → Action Unit
  | 0 => pure ()
  | n + 1 => do
    let i := Int64.ofNat n
    setAt target (store + i) (← getAt source (fetch + i))
    copyDown source target fetch store n

/-- Inserts a value. -/
def insert (args : Args) : Action (List Value) := do
  checkTable args 1 ⟨true, true, true⟩
  let t := args.get 1
  let e := (← lengthOf t) + 1
  match args.length with
  | 2 =>
    setAt t e (args.get 2)
    return []
  | 3 =>
    let pos ← args.int 2
    -- Without signs, a position below one is too large as well.
    if (pos.toUInt64 - 1) ≥ e.toUInt64 then Action.failArgument 2 "position out of bounds"
    copyDown t t pos (pos + 1) (e - pos).toNatClampNeg
    setAt t pos (args.get 3)
    return []
  | _ => Action.failLocated "wrong number of arguments to 'insert'"

/-- Removes a value and gives it. -/
def remove (args : Args) : Action (List Value) := do
  checkTable args 1 ⟨true, true, true⟩
  let t := args.get 1
  let size ← lengthOf t
  let pos ← args.intOr 2 size
  -- The border itself may be removed, although it may be zero.
  if pos != size && pos.toUInt64 - 1 > size.toUInt64 then
    Action.failArgument 2 "position out of bounds"
  let v ← getAt t pos
  copyUp t t (pos + 1) pos (size - pos).toNatClampNeg 0
  setAt t (if pos < size then size else pos) .nil
  return [v]

/-- Copies a range of elements. -/
def move (args : Args) : Action (List Value) := do
  let f ← args.int 2
  let e ← args.int 3
  let t ← args.int 4
  let place := if args.isNone 5 then 1 else 5
  checkTable args 1 ⟨true, false, false⟩
  checkTable args place ⟨false, true, false⟩
  let a := args.get 1
  let b := args.get place
  if e ≥ f then
    if !(f > 0 || e.toInt < Int64.maxValue.toInt + f.toInt) then
      Action.failArgument 3 "too many elements to move"
    let n := e - f + 1
    if !(t ≤ Int64.maxValue - n + 1) then Action.failArgument 4 "destination wrap around"
    let same ← if place = 1 then pure true else Metamethod.equal a b
    -- Where a range is moved up inside of itself, its end goes first.
    if t > e || t ≤ f || !same then copyUp a b f t n.toNatClampNeg 0
    else copyDown a b f t n.toNatClampNeg
  return [b]

/-- The text of the element at a position. -/
def element (t : Value) (i : Int64) : Action ByteArray := do
  let v ← getAt t i
  match v.toBytes? with
  | some s => return s
  | none =>
    Action.failLocated s!"invalid value ({v.type.name}) at index {i.toInt} in table for 'concat'"

/-- The texts of `n` more elements with a separator before each. -/
def concatFrom (t : Value) (sep : ByteArray) : Nat → ByteArray → Int64 → Action ByteArray
  | 0, out, _ => pure out
  | n + 1, out, i => do
    let s ← element t i
    Action.checkSize (out.size + s.size)
    concatFrom t sep n (out ++ sep ++ s) (i + 1)

/-- The texts of elements with a separator between. -/
def concatTable (args : Args) : Action (List Value) := do
  checkTable args 1 ⟨true, false, true⟩
  let t := args.get 1
  let size ← lengthOf t
  let sep ← args.bytesOr 2 ByteArray.empty
  let i ← args.intOr 3 1
  let last ← args.intOr 4 size
  if i > last then return [.string ByteArray.empty]
  else
    let first ← element t i
    return [.string (← concatFrom t sep (last - i).toNatClampNeg first (i + 1))]

/-- The elements of a range, latest first before those already there. -/
def elements (t : Value) : Nat → List Value → Int64 → Action (List Value)
  | 0, read, _ => pure read
  | n + 1, read, i => do elements t n ((← getAt t i) :: read) (i + 1)

/-- The greatest number of results of a function. -/
def maxResults : Int := 1000000

/-- The elements of a range as results. -/
def unpackTable (args : Args) : Action (List Value) := do
  let t := args.get 1
  let i ← args.intOr 2 1
  let e ← if args.isNone 3 then lengthOf t else args.int 3
  if i > e then return []
  else if e.toInt - i.toInt ≥ maxResults - 1 then Action.failLocated "too many results to unpack"
  else return (← elements t (e - i + 1).toNatClampNeg [] i).reverse

/-! ## Sorting -/

/-- Whether a value comes before another in the order that is asked for. -/
def comesBefore (order : Value) (a b : Value) : Action Bool :=
  match order with
  | .nil => Metamethod.less a b
  | f => do return (← Action.call1 f [a, b]).isTruthy

/-- The failure of an order that is none. -/
def failOrderFunction : Action α := Action.failLocated "invalid order function for sorting"

/-- The first place after `i` whose element does not come before the pivot, with that element. -/
def scanUp (t order pivot : Value) (stop : Int64) : Nat → Int64 → Action (Int64 × Value)
  | 0, _ => failOrderFunction
  | fuel + 1, i => do
    let i := i + 1
    let v ← getAt t i
    if ← comesBefore order v pivot then
      if i == stop then failOrderFunction else scanUp t order pivot stop fuel i
    else return (i, v)

/-- The last place before `j` whose element does not come after the pivot, with that element. -/
def scanDown (t order pivot : Value) (i : Int64) : Nat → Int64 → Action (Int64 × Value)
  | 0, _ => failOrderFunction
  | fuel + 1, j => do
    let j := j - 1
    let v ← getAt t j
    if ← comesBefore order pivot v then
      if j < i then failOrderFunction else scanDown t order pivot i fuel j
    else return (j, v)

/-- Exchanges elements until those before the result do not come after the pivot, which stands at
`up - 1`, and those behind it do not come before it. -/
def partition (t order pivot : Value) (up : Int64) (width : Nat) : Nat → Int64 → Int64 → Action Int64
  | 0, _, _ => failOrderFunction
  | fuel + 1, i, j => do
    let (i, a) ← scanUp t order pivot (up - 1) (width + 2) i
    let (j, b) ← scanDown t order pivot i (width + 2) j
    if j < i then
      setAt t (up - 1) a
      setAt t i pivot
      return i
    else
      setAt t i b
      setAt t j a
      partition t order pivot up width fuel i j

/-- Sorts the elements from `lo` to `up`. -/
def sortRange (t order : Value) : Nat → Int64 → Int64 → Action Unit
  | 0, _, _ => pure ()
  | fuel + 1, lo, up =>
    if up ≤ lo then pure ()
    else do
      let a ← getAt t lo
      let b ← getAt t up
      if ← comesBefore order b a then
        setAt t lo b
        setAt t up a
      if up - lo == 1 then return ()
      -- Of the first, the middle and the last element, the middle one is put between the others.
      let p := (lo + up) / 2
      let m ← getAt t p
      let a ← getAt t lo
      if ← comesBefore order m a then
        setAt t p a
        setAt t lo m
      else
        let b ← getAt t up
        if ← comesBefore order b m then
          setAt t p b
          setAt t up m
      if up - lo == 2 then return ()
      -- It is the pivot, and waits in front of the last one.
      let pivot ← getAt t p
      let c ← getAt t (up - 1)
      setAt t p c
      setAt t (up - 1) pivot
      let width := (up - lo).toNatClampNeg
      let p ← partition t order pivot up width (width + 2) lo (up - 1)
      -- The shorter part is sorted first.
      if p - lo < up - p then
        sortRange t order fuel lo (p - 1)
        sortRange t order fuel (p + 1) up
      else
        sortRange t order fuel (p + 1) up
        sortRange t order fuel lo (p - 1)

/-- Sorts a table. -/
def sort (args : Args) : Action (List Value) := do
  checkTable args 1 ⟨true, true, true⟩
  let t := args.get 1
  let n ← lengthOf t
  if n > 1 then
    if n ≥ 2147483647 then Action.failArgument 1 "array too big"
    if !args.isNone 2 && (args.get 2).type != .function then args.failType 2 "function"
    sortRange t (args.get 2) n.toNatClampNeg 1 n
  return []

/-- Carries out a function on tables. -/
def table (f : TableFunction) (args : Args) : Action (List Value) :=
  match f with
  | .concat => concatTable args
  | .insert => insert args
  | .move => move args
  | .pack => do
    let t := (Table.withRoom args.length 1).setItems 0 args
    have lawful : t.Lawful := (Table.lawful_withRoom _ _).setItems _ _
    return [← Action.newTable (t.setText "n" (Value.ofNat args.length)) (lawful.setText _ _)]
  | .remove => remove args
  | .sort => sort args
  | .unpack => unpackTable args

end VaultConsole.Lua.Library
