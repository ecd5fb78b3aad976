import VaultConsole.Yaml.Node
import VaultConsole.Yaml.Resolution

/-!
# Reading YAML

The value of a text that holds one document or none: aliases stand for what they refer to, a mapping has no
key twice, and collections nest to a bounded depth.
-/

namespace VaultConsole.Yaml

/-! ## Equality of keys -/

/-- Whether two floating-point numbers count as one key: all that are no number do. -/
def sameFloat (a b : UInt64) : Bool :=
  let isNaN (x : UInt64) : Bool := match Decimal.Binary64.ofBits x with
    | .nan => true
    | _ => false
  let isZero (x : UInt64) : Bool := x &&& 0x7FFFFFFFFFFFFFFF == 0
  a == b || (isNaN a && isNaN b) || (isZero a && isZero b)

mutual

/-- Whether two values count as one key. The order of entries does not matter. -/
def sameKey : Yaml → Yaml → Bool
  | .null, .null => true
  | .bool a, .bool b => a == b
  | .int a, .int b => a == b
  | .float a, .float b => sameFloat a b
  | .string a, .string b => a == b
  | .sequence as, .sequence bs => sameItems as bs
  | .mapping as, .mapping bs => as.length == bs.length && sameEntries as bs
  | .tagged s a, .tagged t b => s == t && sameKey a b
  | _, _ => false

/-- Whether two sequences have the same items. -/
def sameItems : List Yaml → List Yaml → Bool
  | [], [] => true
  | a :: as, b :: bs => sameKey a b && sameItems as bs
  | _, _ => false

/-- Whether every entry is among the others. -/
def sameEntries : List (Yaml × Yaml) → List (Yaml × Yaml) → Bool
  | [], _ => true
  | (k, v) :: as, bs => hasEntry k v bs && sameEntries as bs

/-- Whether an entry is among the others. -/
def hasEntry (k v : Yaml) : List (Yaml × Yaml) → Bool
  | [] => false
  | (k', v') :: bs => (sameKey k k' && sameKey v v') || hasEntry k v bs

end

/-! ## Anchors -/

namespace Node

mutual

/-- The nodes with a number, those that come later first. -/
def anchored (known : List (Nat × Node)) : Node → List (Nat × Node)
  | .alias _ => known
  | .scalar p s plain => note p (.scalar p s plain) known
  | .sequence p items => anchoredItems (note p (.sequence p items) known) items
  | .mapping p entries => anchoredEntries (note p (.mapping p entries) known) entries

/-- The nodes with a number among items. -/
def anchoredItems (known : List (Nat × Node)) : List Node → List (Nat × Node)
  | [] => known
  | v :: vs => anchoredItems (anchored known v) vs

/-- The nodes with a number among entries. -/
def anchoredEntries (known : List (Nat × Node)) : List (Node × Node) → List (Nat × Node)
  | [] => known
  | (k, v) :: es => anchoredEntries (anchored (anchored known k) v) es

/-- Adds a node that has a number. -/
def note (p : Properties) (v : Node) (known : List (Nat × Node)) : List (Nat × Node) :=
  match p.anchor? with
  | some n => (n, v) :: known
  | none => known

end

mutual

/-- The number of marks in a node: one for a scalar or an alias, and two more than those inside for a
collection. -/
def size : Node → Nat
  | .alias _ => 1
  | .scalar .. => 1
  | .sequence _ items => 2 + sizeItems items
  | .mapping _ entries => 2 + sizeEntries entries

/-- The number of marks in items. -/
def sizeItems : List Node → Nat
  | [] => 0
  | v :: vs => size v + sizeItems vs

/-- The number of marks in entries. -/
def sizeEntries : List (Node × Node) → Nat
  | [] => 0
  | (k, v) :: es => size k + size v + sizeEntries es

end

/-! ## Values -/

/-- The greatest nesting of collections. -/
def maxDepth : Nat := 128

/-- The aliases that may be followed for each mark of a document. -/
def maxRepetition : Nat := 100

/-- Following aliases: how many more may be followed. -/
abbrev Expansion := StateT Nat (Except Fault)

/-- The tag under which a value is known. -/
def shownTag (tag : String) : String :=
  if tag == "!" then "!!" else tag

mutual

/-- The value of a node in a document, where collections may still nest to a depth. -/
def value (anchors : List (Nat × Node)) : Nat → Nat → Node → Expansion Yaml
  | 0, _, _ => throw .depth
  | fuel + 1, depth, node => do
    match node with
    | .alias n =>
      -- Without a bound a short document could have a value of any size.
      match ← get with
      | 0 => throw .repetition
      | left + 1 =>
        set left
        match anchors.lookup n with
        | some v => value anchors fuel depth v
        | none => throw .unknownAnchor
    | .scalar p s plain =>
      match p.tag?.filter isLocalTag with
      | some tag => return .tagged (shownTag tag) (← ofScalar none s plain)
      | none => ofScalar p.tag? s plain
    | .sequence p items =>
      match depth with
      | 0 => throw .depth
      | depth + 1 =>
        let v := Yaml.sequence (← values anchors fuel depth items [])
        match p.tag?.filter isLocalTag with
        | some tag => return .tagged (shownTag tag) v
        | none => return v
    | .mapping p entries =>
      match depth with
      | 0 => throw .depth
      | depth + 1 =>
        let v := Yaml.mapping (← entryValues anchors fuel depth entries [])
        match p.tag?.filter isLocalTag with
        | some tag => return .tagged (shownTag tag) v
        | none => return v

/-- The values of items after those read, latest first. -/
def values (anchors : List (Nat × Node)) : Nat → Nat → List Node → List Yaml → Expansion (List Yaml)
  | 0, _, _, _ => throw .depth
  | _ + 1, _, [], read => return read.reverse
  | fuel + 1, depth, v :: vs, read => do
    let v ← value anchors fuel depth v
    values anchors fuel depth vs (v :: read)

/-- The values of entries after those read, latest first. -/
def entryValues (anchors : List (Nat × Node)) : Nat → Nat → List (Node × Node) → List (Yaml × Yaml) →
    Expansion (List (Yaml × Yaml))
  | 0, _, _, _ => throw .depth
  | _ + 1, _, [], read => return read.reverse
  | fuel + 1, depth, (k, v) :: es, read => do
    let k ← value anchors fuel depth k
    -- A key that is there already is refused before its value is made.
    if read.any fun e => sameKey e.1 k then throw .duplicateKey
    let v ← value anchors fuel depth v
    entryValues anchors fuel depth es ((k, v) :: read)

end

/-- The value of a document. -/
def toValue (node : Node) : Except Fault Yaml := do
  let n := node.size
  return (← (value (anchored [] node) ((maxDepth + 2) * (n + 3)) maxDepth node).run (maxRepetition * n)).1

end Node

/-- The value of a text; one without a document is null. -/
def read (text : String) : Except Fault Yaml := do
  match ← Node.ofText text.toList with
  | none => return .null
  | some node => node.toValue

end VaultConsole.Yaml
