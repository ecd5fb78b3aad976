import Std.Data.HashMap
import VaultConsole.Decimal.Power
import VaultConsole.Lua.Value

/-!
# Tables

A table maps keys to values; a key whose value is nil is absent. The values of the keys 1, 2, … are kept
in an array as long as more than half of it is in use; all other entries are kept in the order in
which their keys came first. The split shows in one place only: the length of a table with holes is a
border that depends on it.
-/

namespace VaultConsole.Lua

/-- A table. -/
structure Table where
  /-- The values of the keys 1, 2, …; nil where a key is absent. -/
  items : Array Value
  /-- A border is looked for from here. -/
  limit : Nat
  /-- All other entries; nil where a key is absent again. -/
  entries : Array (Value × Value)
  /-- The position of each key of `entries`. -/
  index : Std.HashMap Value Nat
  /-- The number of entries at which the array is chosen anew. -/
  capacity : Nat
  /-- The reference of the metatable. -/
  metatable? : Option Nat
  deriving Inhabited

namespace Table

/-- An empty table. -/
def empty : Table := ⟨#[], 0, #[], ∅, 0, none⟩

/-- The least power of two that is not below a number. -/
def powerAbove (n : Nat) : Nat := if n ≤ 1 then 1 else Decimal.twoTo (Nat.log2 (n - 1) + 1)

def isPower (n : Nat) : Bool := n != 0 && n == powerAbove n

/-- The capacity for a number of entries. -/
def capacityFor (n : Nat) : Nat := if n = 0 then 0 else powerAbove n

/-- An empty table with room for items and entries. -/
def withRoom (items entries : Nat) : Table :=
  ⟨Array.replicate items .nil, items, #[], ∅, capacityFor entries, none⟩

/-- The key that stands for all keys equal to it: an integral float is the integer. -/
def normalize : Value → Value
  | .float b =>
    match Real.toInt? b with
    | some n => .int n
    | none => .float b
  | v => v

/-- The position of a key in the array. -/
def position? (t : Table) (key : Value) : Option Nat :=
  match key with
  | .int n => if 0 < n && n.toNatClampNeg ≤ t.items.size then some (n.toNatClampNeg - 1) else none
  | _ => none

/-- The value under an integer. -/
def getInt (t : Table) (n : Int64) : Value :=
  if 0 < n && n.toNatClampNeg ≤ t.items.size then t.items.getD (n.toNatClampNeg - 1) .nil
  else if t.entries.isEmpty then .nil
  else match t.index.get? (.int n) with
    | some i => (t.entries.getD i (.nil, .nil)).2
    | none => .nil

/-- The value under a key. -/
def get (t : Table) (key : Value) : Value :=
  match key with
  | .int n => t.getInt n
  | .nil => .nil
  | key =>
    -- The keys of an empty table need not be looked at.
    if t.entries.isEmpty && t.items.isEmpty then .nil
    else match normalize key with
      | .int n => t.getInt n
      | key =>
        match t.index.get? key with
        | some i => (t.entries.getD i (.nil, .nil)).2
        | none => .nil

/-- The value under a text. -/
def getText (t : Table) (key : String) : Value := t.get (.text key)

/-! ## Choosing the array -/

/-- Counts a key in the class of the least power of two that is not below it. -/
def countKey (counts : Array Nat) : Value → Array Nat
  | .int n =>
    if 0 < n then
      let k := n.toNatClampNeg
      counts.modify (if k ≤ 1 then 0 else Nat.log2 (k - 1) + 1) (· + 1)
    else counts
  | _ => counts

/-- The greatest power of two of which more than half of the keys up to it are in use, and the number
of those keys; `seen` keys are counted in the classes below `i`, and `best` is the result so far. -/
def bestSize (counts : Array Nat) (total : Nat) : Nat → Nat → Nat → Nat × Nat → Nat × Nat
  | 0, _, _, best => best
  | fuel + 1, i, seen, best =>
    -- Further sizes cannot be more than half in use.
    if total ≤ Decimal.twoTo i / 2 then best
    else
      let seen := seen + counts.getD i 0
      let size := Decimal.twoTo i
      bestSize counts total fuel (i + 1) seen (if seen > size / 2 then (size, seen) else best)

/-- Adds an entry at the end; its key is not among the entries. -/
def pushEntry (t : Table) (key value : Value) : Table :=
  match t with
  | ⟨items, limit, entries, index, capacity, m⟩ =>
    let n := entries.size
    ⟨items, limit, entries.push (key, value), index.insert key n, capacity, m⟩

/-- Puts an entry into the array if it has a place for it, else in the place of its key among the other
entries, which is at their end if the key is new. -/
def place (t : Table) (key value : Value) : Table :=
  match t.position? key with
  | some i =>
    match t with
    | ⟨items, limit, entries, index, capacity, m⟩ =>
      ⟨items.setIfInBounds i value, limit, entries, index, capacity, m⟩
  | none =>
    match t.index.get? key with
    | some i =>
      match t with
      | ⟨items, limit, entries, index, capacity, m⟩ =>
        ⟨items, limit, entries.setIfInBounds i (key, value), index, capacity, m⟩
    | none => t.pushEntry key value

/-- The table with an array of another size and room for a number of other entries. -/
def resize (t : Table) (size room : Nat) : Table :=
  let kept := t.items.extract 0 size
  let kept := kept ++ Array.replicate (size - kept.size) .nil
  let fresh : Table := ⟨kept, size, #[], ∅, capacityFor room, t.metatable?⟩
  -- What the array has no place for any more goes to the entries, before those that were there.
  let fresh := (List.range (t.items.size - size)).foldl (fun f i =>
    let v := t.items.getD (size + i) .nil
    if v.isNil then f else f.place (.int (Int64.ofNat (size + i + 1))) v) fresh
  t.entries.foldl (fun f (k, v) => if v.isNil then f else f.place k v) fresh

/-- The table with the array chosen for its keys and one more. -/
def rehash (t : Table) (key : Value) : Table :=
  let counts := Array.replicate 65 0
  let (counts, _) := t.items.foldl (fun (counts, i) v =>
    (if v.isNil then counts else countKey counts (.int (Int64.ofNat (i + 1))), i + 1)) (counts, 0)
  let (counts, live) := t.entries.foldl (fun (counts, live) (k, v) =>
    if v.isNil then (counts, live) else (countKey counts k, live + 1)) (counts, 0)
  let inItems := t.items.foldl (fun n v => if v.isNil then n else n + 1) 0
  let counts := countKey counts key
  let total := counts.foldl (· + ·) 0
  -- What is not counted for the array needs room among the entries, and so does the new key.
  let (size, used) := bestSize counts total 64 0 0 (0, 0)
  t.resize size (inItems + live + 1 - used)

/-- The table with a value under a normal key, which is neither nil nor NaN. -/
def set (t : Table) (key value : Value) : Table :=
  match t.position? key with
  | some i =>
    match t with
    | ⟨items, limit, entries, index, capacity, m⟩ =>
      ⟨items.setIfInBounds i value, limit, entries, index, capacity, m⟩
  | none =>
    match t.index.get? key with
    | some i =>
      match t with
      | ⟨items, limit, entries, index, capacity, m⟩ =>
        ⟨items, limit, entries.setIfInBounds i (key, value), index, capacity, m⟩
    | none =>
      -- Nil under a new key is no entry.
      if value.isNil then t
      -- Only a table that is full chooses its array anew.
      else if t.entries.size < t.capacity then t.pushEntry key value
      else (t.rehash key).place key value

/-- The table with a value under a text. -/
def setText (t : Table) (key : String) (value : Value) : Table := t.set (.text key) value

/-- The table with the values under successive keys from `start + 1` on; the array is made large
enough for them. -/
def setItems (t : Table) (start : Nat) (values : List Value) : Table :=
  let last := start + values.length
  let t := if last > t.items.size then t.resize last t.entries.size else t
  match t with
  | ⟨items, limit, entries, index, capacity, m⟩ =>
    let (items, _) := values.foldl (fun (items, i) v => (items.setIfInBounds i v, i + 1)) (items, start)
    ⟨items, limit, entries, index, capacity, m⟩

/-! ## Length -/

/-- A border between a present `i` and an absent `j`, by halving. -/
def halve (present : Nat → Bool) : Nat → Nat → Nat → Nat
  | 0, i, _ => i
  | fuel + 1, i, j =>
    if j ≤ i + 1 then i
    else
      let m := (i + j) / 2
      if present m then halve present fuel m j else halve present fuel i m

/-- The greatest integer. -/
def maxInteger : Nat := 0x7FFFFFFFFFFFFFFF

/-- A border from a present `i` on: an absent number above a present one is looked for by doubling, up to
the greatest integer, which is a border itself if it is present. -/
def borderFrom (present : Nat → Bool) : Nat → Nat → Nat
  | 0, i => i
  | fuel + 1, i =>
    if i ≤ maxInteger / 2 then
      if present (2 * i) then borderFrom present fuel (2 * i) else halve present 64 i (2 * i)
    -- Doubling once more would leave the integers.
    else if present maxInteger then maxInteger
    else halve present 64 i maxInteger

/-- A border: zero or a present key whose successor is absent. With it comes the place from which the
next search starts. -/
def border (t : Table) : Nat × Nat :=
  let size := t.items.size
  let present (k : Nat) : Bool := !(t.items.getD (k - 1) .nil).isNil
  let known (k : Nat) : Bool := !(t.getInt (Int64.ofNat k)).isNil
  -- Keys beyond the array are asked for only if the array is full.
  let beyond : Nat :=
    if t.entries.isEmpty || !known (size + 1) then size else borderFrom known 63 (max size 1)
  -- The limit is absent: there is a border before it, most often right before it.
  if t.limit > 0 && !present t.limit then
    if t.limit ≥ 2 && present (t.limit - 1) then
      (t.limit - 1, if isPower size && !isPower (t.limit - 1) then t.limit - 1 else t.limit)
    else
      let b := halve present 64 0 t.limit
      (b, if isPower size && b > size / 2 then b else t.limit)
  -- The limit is present: there is a border after it, in the array or beyond.
  else if t.limit < size then
    if !present (t.limit + 1) then (t.limit, t.limit)
    else if !present size then
      let b := halve present 64 t.limit size
      (b, b)
    else (beyond, t.limit)
  else (beyond, t.limit)

/-! ## Traversal -/

/-- The first present item from a position on. -/
def itemFrom (t : Table) : Nat → Nat → Option (Value × Value)
  | 0, _ => none
  | fuel + 1, i =>
    match t.items[i]? with
    | none => none
    | some v => if v.isNil then itemFrom t fuel (i + 1) else some (.int (Int64.ofNat (i + 1)), v)

/-- The first present entry from a position on. -/
def entryFrom (t : Table) : Nat → Nat → Option (Value × Value)
  | 0, _ => none
  | fuel + 1, i =>
    match t.entries[i]? with
    | none => none
    | some (k, v) => if v.isNil then entryFrom t fuel (i + 1) else some (k, v)

/-- The first key and value from an item on. -/
def fromItem (t : Table) (i : Nat) : Option (Value × Value) :=
  (t.itemFrom (t.items.size + 1) i).orElse fun _ => t.entryFrom (t.entries.size + 1) 0

/-- What follows a key in a traversal: nothing if the key is not of this table, else the next key with
its value, if there is one. The traversal starts with nil. -/
def next? (t : Table) (key : Value) : Option (Option (Value × Value)) :=
  match normalize key with
  -- Items come first, and then the entries in the order of their places.
  | .nil => some (t.fromItem 0)
  | key =>
    match t.position? key with
    | some i => some (t.fromItem (i + 1))
    | none => (t.index.get? key).map fun i => t.entryFrom (t.entries.size + 1) (i + 1)

/-- All keys with their values in the order of traversal. -/
def toList (t : Table) : List (Value × Value) :=
  let (items, _) := t.items.foldl (fun (kept, i) v =>
    (if v.isNil then kept else (Value.int (Int64.ofNat (i + 1)), v) :: kept, i + 1))
    (([] : List (Value × Value)), 0)
  items.reverse ++ t.entries.toList.filter fun e => !e.2.isNil

/-- The bytes that the table is taken to use. -/
def cost (t : Table) : Nat := 56 + 16 * t.items.size + 40 * t.capacity

end Table

end VaultConsole.Lua
