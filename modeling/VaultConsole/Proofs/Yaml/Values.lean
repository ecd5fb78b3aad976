import VaultConsole.Lua.Table
import VaultConsole.Proofs.Export.Entries
import VaultConsole.Script.Value
import VaultConsole.Yaml.Reader

/-!
# Documents as values

What a document stands for outside of scripts, part by part (`Yaml.image`): of a mapping, just the keys whose
values are not null are kept, and an empty sequence is an empty object. Which documents are told faithfully is
`Yaml.IsPlain`: null is no item, and keys are texts.

What is read has no key twice in a mapping, and no integer below those of 64 bits (`Yaml.read_consistent`). The
values of aliases are made like those of any other node, so that nothing has to be known of anchors.
-/

namespace VaultConsole.Yaml

/-! ## Images -/

/-- The text that a key is. -/
def keyText : Yaml → String
  | .string s => s
  | _ => ""

mutual

/-- The value that a document stands for. An integer that 64 bits with a sign do not hold is a floating-point
number; tags are passed over. -/
def image : Yaml → ScriptValue
  | .null => .nil
  | .bool b => .boolean b
  | .int n => if n < 0x8000000000000000 then .integer n else .number ((UInt64.ofNat n.toNat).toFloat.toBits)
  | .float b => .number b
  | .string s => .string s
  | .sequence items => if items.isEmpty then .object [] else .array (images items)
  | .mapping entries => .object (ScriptValue.sortEntries (imageEntries entries))
  | .tagged _ v => image v

/-- The values of items, in their order. -/
def images : List Yaml → List ScriptValue
  | [] => []
  | v :: vs => image v :: images vs

/-- The values of entries under their keys, without those that are null. -/
def imageEntries : List (Yaml × Yaml) → List (String × ScriptValue)
  | [] => []
  | (k, v) :: es => if v.isNull then imageEntries es else (keyText k, image v) :: imageEntries es

end

mutual

/-- Whether a document has no tags, no null among items, and texts as keys only; no sequence has more items than
the integers of the language can count. -/
def IsPlain : Yaml → Prop
  | .sequence items => items.length < Lua.Table.maxInteger ∧ PlainItems items
  | .mapping entries => PlainEntries entries
  | .tagged .. => False
  | _ => True

/-- Whether items are no null, and plain. -/
def PlainItems : List Yaml → Prop
  | [] => True
  | v :: vs => v.isNull = false ∧ IsPlain v ∧ PlainItems vs

/-- Whether the keys of entries are texts and their values are plain. -/
def PlainEntries : List (Yaml × Yaml) → Prop
  | [] => True
  | (k, v) :: es => (∃ s, k = .string s) ∧ IsPlain v ∧ PlainEntries es

end

theorem plainEntries_iff {es : List (Yaml × Yaml)} :
    PlainEntries es ↔ ∀ e ∈ es, (∃ s, e.1 = .string s) ∧ e.2.IsPlain := by
  induction es with
  | nil => simp [PlainEntries]
  | cons e es ih => rw [PlainEntries, ih, List.forall_mem_cons, and_assoc]

mutual

/-- How many collections a document nests. -/
def nesting : Yaml → Nat
  | .sequence items => nestingOfItems items + 1
  | .mapping entries => nestingOfEntries entries + 1
  | .tagged _ v => nesting v + 1
  | _ => 0

/-- The greatest nesting among items. -/
def nestingOfItems : List Yaml → Nat
  | [] => 0
  | v :: vs => max (nesting v) (nestingOfItems vs)

/-- The greatest nesting among the values of entries. -/
def nestingOfEntries : List (Yaml × Yaml) → Nat
  | [] => 0
  | (_, v) :: es => max (nesting v) (nestingOfEntries es)

end

/-! ## What is read -/

/-- Whether no two entries have one key. -/
def KeysDiffer (es : List (Yaml × Yaml)) : Prop := es.Pairwise fun a b => sameKey a.1 b.1 = false

mutual

/-- Whether no mapping of a document has a key twice, and no integer is below those of 64 bits. -/
def Consistent : Yaml → Prop
  | .int n => -0x8000000000000000 ≤ n
  | .sequence items => ConsistentItems items
  | .mapping entries => KeysDiffer entries ∧ ConsistentEntries entries
  | .tagged _ v => Consistent v
  | _ => True

/-- Whether items are consistent. -/
def ConsistentItems : List Yaml → Prop
  | [] => True
  | v :: vs => Consistent v ∧ ConsistentItems vs

/-- Whether the values of entries are consistent. -/
def ConsistentEntries : List (Yaml × Yaml) → Prop
  | [] => True
  | (_, v) :: es => Consistent v ∧ ConsistentEntries es

end

/-- Keys that are texts differ as texts. -/
theorem keyText_ne {name : String} {k : Yaml} (named : ∃ s, k = .string s) (differ : sameKey (.string name) k = false) :
    keyText k ≠ name := by
  obtain ⟨s, rfl⟩ := named
  rintro rfl
  simp [sameKey, keyText] at differ

theorem consistentItems_iff {vs : List Yaml} : ConsistentItems vs ↔ ∀ v ∈ vs, v.Consistent := by
  induction vs with
  | nil => simp [ConsistentItems]
  | cons v vs ih => rw [ConsistentItems, ih, List.forall_mem_cons]

theorem consistentEntries_iff {es : List (Yaml × Yaml)} :
    ConsistentEntries es ↔ ∀ e ∈ es, e.2.Consistent := by
  induction es with
  | nil => simp [ConsistentEntries]
  | cons e es ih => rw [ConsistentEntries, ih, List.forall_mem_cons]

/-- An integer that is read has 64 bits. -/
theorem le_of_readInteger {cs : List Char} {n : Int} (read : readInteger cs = .value n) :
    -0x8000000000000000 ≤ n := by
  rw [readInteger] at read
  split at read
  · cases read
  · split at read
    · rename_i inside
      obtain rfl := IntegerReading.value.inj read
      simp only [Bool.and_eq_true, decide_eq_true_eq] at inside
      exact inside.1
    · split at read
      · cases read
      · cases read

theorem consistent_ofPlain {s : String} {v : Yaml} (read : ofPlain s = .ok v) : v.Consistent := by
  unfold ofPlain at read
  simp only at read
  split at read
  · cases read
    exact trivial
  · split at read
    · cases read
      exact trivial
    · split at read
      · rename_i value
        cases read
        exact le_of_readInteger value
      · cases read
      · split at read
        · cases read
          exact trivial
        · cases read
          exact trivial

/-- A value is consistent if it was read as one of those that all are. -/
theorem consistent_of_map {α : Type} {x? : Option α} {f : α → Yaml} {v : Yaml}
    (read : (match x?.map f with
      | some v => .ok v
      | none => .error Fault.scalar) = Except.ok v) (consistent : ∀ x, (f x).Consistent) : v.Consistent := by
  cases x? with
  | none => cases read
  | some x =>
    cases read
    exact consistent x

theorem consistent_ofScalar {tag? : Option String} {s : String} {isPlain : Bool} {v : Yaml}
    (read : ofScalar tag? s isPlain = .ok v) : v.Consistent := by
  unfold ofScalar at read
  simp only at read
  split at read
  · split at read
    · exact consistent_ofPlain read
    · cases read
      exact trivial
  · split at read
    · exact consistent_of_map read fun _ => trivial
    · split at read
      · split at read
        · rename_i value
          cases read
          exact le_of_readInteger value
        · cases read
      · split at read
        · exact consistent_of_map read fun _ => trivial
        · split at read
          · split at read
            · cases read
              exact trivial
            · cases read
          · cases read
            exact trivial

/-! ## Expanding aliases -/

namespace Node

/-- Whether everything that an expansion gives has a property. -/
def Ensures {α : Type} (x : Expansion α) (P : α → Prop) : Prop := ∀ left a left', x left = .ok (a, left') → P a

section

variable {α β : Type} {P : α → Prop} {Q : β → Prop}

theorem ensures_true (x : Expansion α) : Ensures x fun _ => True := fun _ _ _ _ => trivial

theorem ensures_pure {a : α} (h : P a) : Ensures (pure a) P := by
  intro left b left' given
  cases given
  exact h

theorem ensures_throw (f : Fault) : Ensures (throw f) P := by
  intro left a left' given
  cases given

theorem ensures_lift {x : Except Fault α} (h : ∀ a, x = .ok a → P a) : Ensures (liftM x) P := by
  intro left a left' given
  cases x with
  | error f => cases given
  | ok a =>
    cases given
    exact h _ rfl

theorem Ensures.bind {x : Expansion α} {f : α → Expansion β} (first : Ensures x P)
    (later : ∀ a, P a → Ensures (f a) Q) : Ensures (x >>= f) Q := by
  intro left b left' given
  have split : (x >>= f) left = (x left).bind fun r => f r.1 r.2 := rfl
  rw [split] at given
  cases done : x left with
  | error f =>
    rw [done] at given
    cases given
  | ok r =>
    rw [done] at given
    exact later r.1 (first left r.1 r.2 done) r.2 b left' given

end

variable {anchors : List (Nat × Node)}

/-- Whether expansions with some fuel give consistent documents, whichever nodes they begin with. Entries that
are read come latest first. -/
structure Expands (anchors : List (Nat × Node)) (fuel : Nat) : Prop where
  value : ∀ depth node, Ensures (value anchors fuel depth node) Consistent
  values : ∀ depth nodes read, (∀ v ∈ read, v.Consistent) →
    Ensures (values anchors fuel depth nodes read) fun vs => ∀ v ∈ vs, v.Consistent
  entryValues : ∀ depth nodes read, KeysDiffer read.reverse → (∀ e ∈ read, e.2.Consistent) →
    Ensures (entryValues anchors fuel depth nodes read) fun es => KeysDiffer es ∧ ∀ e ∈ es, e.2.Consistent

theorem expands_value {fuel : Nat} (expands : Expands anchors fuel) (depth : Nat) (node : Node) :
    Ensures (Node.value anchors (fuel + 1) depth node) Consistent := by
  unfold Node.value
  split
  · -- An alias stands for the node at its anchor, which needs less fuel; nothing is known of anchors.
    refine (ensures_true _).bind fun n _ => ?_
    split
    · exact ensures_throw _
    · refine (ensures_true _).bind fun _ _ => ?_
      split
      · exact expands.value _ _
      · exact ensures_throw _
  · split
    · exact Ensures.bind (ensures_lift fun v read => consistent_ofScalar read) fun v consistent =>
        ensures_pure consistent
    · exact ensures_lift fun v read => consistent_ofScalar read
  · split
    · exact ensures_throw _
    · refine (expands.values _ _ [] (by simp)).bind fun vs consistent => ?_
      split
      · exact ensures_pure (consistentItems_iff.2 consistent)
      · exact ensures_pure (consistentItems_iff.2 consistent)
  · split
    · exact ensures_throw _
    · refine (expands.entryValues _ _ [] .nil (by simp)).bind fun es consistent => ?_
      split
      · exact ensures_pure ⟨consistent.1, consistentEntries_iff.2 consistent.2⟩
      · exact ensures_pure ⟨consistent.1, consistentEntries_iff.2 consistent.2⟩

theorem expands_values {fuel : Nat} (expands : Expands anchors fuel) (depth : Nat) (nodes : List Node)
    (read : List Yaml) (consistent : ∀ v ∈ read, v.Consistent) :
    Ensures (Node.values anchors (fuel + 1) depth nodes read) fun vs => ∀ v ∈ vs, v.Consistent := by
  cases nodes with
  | nil => exact ensures_pure fun v member => consistent v (List.mem_reverse.1 member)
  | cons node nodes =>
    refine (expands.value depth node).bind fun v first => ?_
    exact expands.values depth nodes (v :: read) (List.forall_mem_cons.2 ⟨first, consistent⟩)

/-- A key that is there already is refused. -/
theorem expands_entryValues {fuel : Nat} (expands : Expands anchors fuel) (depth : Nat)
    (nodes : List (Node × Node)) (read : List (Yaml × Yaml)) (differ : KeysDiffer read.reverse)
    (consistent : ∀ e ∈ read, e.2.Consistent) :
    Ensures (Node.entryValues anchors (fuel + 1) depth nodes read) fun es =>
      KeysDiffer es ∧ ∀ e ∈ es, e.2.Consistent := by
  cases nodes with
  | nil => exact ensures_pure ⟨differ, fun e member => consistent e (List.mem_reverse.1 member)⟩
  | cons node nodes =>
    obtain ⟨key, node⟩ := node
    refine (ensures_true _).bind fun k _ => ?_
    by_cases known : (read.any fun e => sameKey e.1 k) = true
    · simp only [known, if_true]
      exact (ensures_throw (P := fun _ => False) _).bind fun _ failed => failed.elim
    · simp only [known]
      refine (expands.value depth node).bind fun v first => ?_
      refine expands.entryValues depth nodes ((k, v) :: read) ?_ (List.forall_mem_cons.2 ⟨first, consistent⟩)
      rw [KeysDiffer, List.reverse_cons, List.pairwise_append]
      refine ⟨differ, List.pairwise_singleton _ _, fun e member f last => ?_⟩
      rw [List.mem_singleton.1 last]
      simp only [List.any_eq_true, not_exists, not_and, Bool.not_eq_true] at known
      exact known e (List.mem_reverse.1 member)

theorem expands (anchors : List (Nat × Node)) (fuel : Nat) : Expands anchors fuel := by
  induction fuel with
  | zero => exact ⟨fun _ _ => ensures_throw _, fun _ _ _ _ => ensures_throw _, fun _ _ _ _ _ => ensures_throw _⟩
  | succ fuel ih => exact ⟨expands_value ih, expands_values ih, expands_entryValues ih⟩

theorem consistent_toValue {node : Node} {v : Yaml} (read : node.toValue = .ok v) : v.Consistent := by
  have expanded : node.toValue = (Node.value (anchored [] node) ((maxDepth + 2) * (node.size + 3)) maxDepth node
      (maxRepetition * node.size)).map Prod.fst := rfl
  rw [expanded] at read
  cases done : Node.value (anchored [] node) ((maxDepth + 2) * (node.size + 3)) maxDepth node
      (maxRepetition * node.size) with
  | error f =>
    rw [done] at read
    cases read
  | ok r =>
    rw [done] at read
    cases read
    exact (expands _ _).value _ _ _ r.1 r.2 done

end Node

/-- **What is read is consistent**: no mapping in it has a key twice. -/
theorem read_consistent {text : String} {v : Yaml} (read : Yaml.read text = .ok v) : v.Consistent := by
  unfold Yaml.read at read
  cases parsed : Node.ofText text.toList with
  | error f =>
    rw [parsed] at read
    cases read
  | ok node? =>
    rw [parsed] at read
    cases node? with
    | none =>
      cases read
      exact trivial
    | some node => exact Node.consistent_toValue read

end VaultConsole.Yaml
