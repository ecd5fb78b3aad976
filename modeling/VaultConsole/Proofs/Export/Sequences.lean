import Mathlib.Data.List.Nodup
import Mathlib.Data.List.Perm.Subperm
import VaultConsole.Lua.Export
import VaultConsole.Lua.Storage

/-!
# Which tables become arrays

A table may be traversed in any order, and if it has holes it may report any of several lengths: what a
traversal and a border are is said of the table alone (`Table.IsTraversal`, `Table.IsBorder`), and a view shows a
heap if it gives one of each for every table (`View.Shows`). Entries pass for a sequence just if their keys are
the integers from one on: as many different keys as there are places fill all of the places
(`isSequence_iff`), and then there is one border only (`IsBorder.eq_of_hasKeysTo`).
-/

namespace VaultConsole.Lua

namespace Table

/-- Whether entries are those of a table, each of them once, in whatever order. -/
structure IsTraversal (t : Table) (entries : List (Value × Value)) : Prop where
  distinct : (entries.map Prod.fst).Nodup
  mem_iff : ∀ k v, (k, v) ∈ entries ↔ IsKey k ∧ t.get k = v ∧ v ≠ .nil

/-- Whether a number is a border of a table: zero or a present integer, and its successor is absent, if there
is one. -/
structure IsBorder (t : Table) (n : Nat) : Prop where
  le : n ≤ maxInteger
  present : n ≠ 0 → t.get (.int (Int64.ofNat n)) ≠ .nil
  absent : n ≠ maxInteger → t.get (.int (Int64.ofNat (n + 1))) = .nil

/-- Whether a table has a value under a key. -/
def HasKey (t : Table) (k : Value) : Prop := IsKey k ∧ t.get k ≠ .nil

/-- Whether the keys of a table are the integers from one to `n`. -/
def HasKeysTo (t : Table) (n : Int64) : Prop := ∀ k, t.HasKey k ↔ ∃ i, 1 ≤ i ∧ i ≤ n ∧ k = .int i

end Table

/-- Whether a view shows the tables of a heap. -/
structure View.Shows (w : View) (h : Heap) : Prop where
  entries : ∀ r, (h.table r).IsTraversal (w.entries r)
  length : ∀ r, (h.table r).IsBorder (w.length r)

/-! ## The keys of items -/

theorem toInt_ofNat {n : Nat} (fits : n ≤ Table.maxInteger) : (Int64.ofNat n).toInt = n :=
  Int64.toInt_ofNat_of_lt (Nat.lt_succ_of_le fits)

theorem one_le_iff {i : Int64} : 1 ≤ i ↔ 0 < i := by
  rw [Int64.le_iff_toInt_le, Int64.lt_iff_toInt_lt, Int64.toInt_one, Int64.toInt_zero]
  omega

/-- A positive integer is a natural number. -/
theorem exists_ofNat {i : Int64} (positive : 0 < i) :
    ∃ n, n + 1 ≤ Table.maxInteger ∧ i = Int64.ofNat (n + 1) ∧ i.toNatClampNeg = n + 1 := by
  have above : 0 < i.toInt := by
    rwa [Int64.lt_iff_toInt_lt, Int64.toInt_zero] at positive
  have below := i.toInt_lt
  have bound : i.toNatClampNeg - 1 + 1 = i.toNatClampNeg := by
    rw [← Int64.toNat_toInt]
    omega
  refine ⟨i.toNatClampNeg - 1, ?_, ?_, bound.symm⟩
  · rw [bound, ← Int64.toNat_toInt, Table.maxInteger]
    omega
  · rw [bound, Int64.ofNat_toNatClampNeg]
    exact Int64.le_iff_toInt_le.2 (by rw [Int64.toInt_zero]; omega)

/-- The keys of the items of a sequence of length `n`. -/
def itemKeys (n : Nat) : List Value := (List.range n).map fun i => .int (Int64.ofNat (i + 1))

theorem mem_itemKeys {n : Nat} (fits : n ≤ Table.maxInteger) (k : Value) :
    k ∈ itemKeys n ↔ ∃ i, 1 ≤ i ∧ i ≤ Int64.ofNat n ∧ k = .int i := by
  simp only [itemKeys, List.mem_map, List.mem_range, Int64.le_iff_toInt_le, toInt_ofNat fits]
  constructor
  · rintro ⟨i, inside, rfl⟩
    refine ⟨_, ?_, ?_, rfl⟩
    · rw [toInt_ofNat (by omega), Int64.toInt_one]
      omega
    · rw [toInt_ofNat (by omega)]
      omega
  · rintro ⟨i, positive, inside, rfl⟩
    obtain ⟨m, bound, rfl, -⟩ := exists_ofNat (one_le_iff.1 (Int64.le_iff_toInt_le.2 positive))
    rw [toInt_ofNat bound] at inside
    exact ⟨m, by omega, rfl⟩

theorem nodup_itemKeys {n : Nat} (fits : n ≤ Table.maxInteger) : (itemKeys n).Nodup := by
  refine List.Nodup.map_on ?_ List.nodup_range
  intro i inside j inside' same
  rw [List.mem_range] at inside inside'
  have equal := congrArg Int64.toInt (Value.int.inj same)
  rw [toInt_ofNat (by omega), toInt_ofNat (by omega)] at equal
  omega

/-- The key of an item is an integer from one to the length. -/
theorem mem_itemKeys_of_isItemKey {n : Nat} {k : Value} (item : isItemKey n k = true) : k ∈ itemKeys n := by
  cases k with
  | int i =>
    simp only [isItemKey, Bool.and_eq_true, decide_eq_true_eq] at item
    obtain ⟨m, bound, rfl, -⟩ := exists_ofNat (one_le_iff.1 (Int64.le_iff_toInt_le.2 item.1))
    rw [toInt_ofNat bound] at item
    exact List.mem_map.2 ⟨m, List.mem_range.2 (by omega), rfl⟩
  | _ => cases item

theorem isItemKey_of_mem {n : Nat} (fits : n ≤ Table.maxInteger) {k : Value} (there : k ∈ itemKeys n) :
    isItemKey n k = true := by
  obtain ⟨i, positive, inside, rfl⟩ := (mem_itemKeys fits k).1 there
  rw [Int64.le_iff_toInt_le, toInt_ofNat fits] at inside
  rw [Int64.le_iff_toInt_le, Int64.toInt_one] at positive
  simp [isItemKey, positive, inside]

/-! ## Entries that pass for a sequence -/

/-- Whether entries pass for a sequence depends on their keys. -/
theorem isSequence_map {α β : Type} (n : Nat) (entries : List (Value × α)) (f : α → β) :
    isSequence n (entries.map fun e => (e.1, f e.2)) = isSequence n entries := by
  simp [isSequence, List.all_map, Function.comp_def]

/-- As many different keys of items as there are places are the keys of all items. -/
theorem perm_of_isSequence {n : Nat} {entries : List (Value × Value)}
    (distinct : (entries.map Prod.fst).Nodup) (sequence : isSequence n entries = true) :
    0 < n ∧ n ≤ Table.maxInteger ∧ (entries.map Prod.fst).Perm (itemKeys n) := by
  simp only [isSequence, Bool.and_eq_true, decide_eq_true_eq, beq_iff_eq, List.all_eq_true] at sequence
  obtain ⟨⟨positive, length⟩, areItems⟩ := sequence
  have isItem : ∀ k ∈ entries.map Prod.fst, isItemKey n k = true := by
    intro k there
    obtain ⟨e, listed, rfl⟩ := List.mem_map.1 there
    exact areItems e listed
  have sub : entries.map Prod.fst ⊆ itemKeys n := fun k there => mem_itemKeys_of_isItemKey (isItem k there)
  have perm : (entries.map Prod.fst).Perm (itemKeys n) := by
    refine (List.subperm_of_subset distinct sub).perm_of_length_le (Nat.le_of_eq ?_)
    rw [itemKeys, List.length_map, List.length_map, List.length_range, length]
  refine ⟨positive, ?_, perm⟩
  -- Behind the greatest integer there would be a key that is negative.
  by_contra beyond
  have there : Value.int (Int64.ofNat (Table.maxInteger + 1)) ∈ itemKeys n :=
    List.mem_map.2 ⟨Table.maxInteger, List.mem_range.2 (by omega), rfl⟩
  have item := isItem _ (perm.mem_iff.2 there)
  simp only [isItemKey, Bool.and_eq_true, decide_eq_true_eq] at item
  exact absurd item.1 (by decide)

theorem isSequence_of_perm {n : Nat} (positive : 0 < n) (fits : n ≤ Table.maxInteger)
    {entries : List (Value × Value)} (perm : (entries.map Prod.fst).Perm (itemKeys n)) :
    isSequence n entries = true := by
  have length : entries.length = n := by
    have same := perm.length_eq
    rwa [itemKeys, List.length_map, List.length_map, List.length_range] at same
  simp only [isSequence, Bool.and_eq_true, decide_eq_true_eq, beq_iff_eq, List.all_eq_true]
  exact ⟨⟨positive, length⟩, fun e there => isItemKey_of_mem fits (perm.mem_iff.1 (List.mem_map_of_mem there))⟩

namespace Table

variable {t : Table} {entries : List (Value × Value)} {n : Nat}

theorem IsTraversal.mem_keys (traversal : t.IsTraversal entries) (k : Value) :
    k ∈ entries.map Prod.fst ↔ t.HasKey k := by
  constructor
  · intro there
    obtain ⟨⟨k, v⟩, listed, rfl⟩ := List.mem_map.1 there
    obtain ⟨isKey, got, solid⟩ := (traversal.mem_iff k v).1 listed
    exact ⟨isKey, got ▸ solid⟩
  · rintro ⟨isKey, solid⟩
    exact List.mem_map.2 ⟨(k, t.get k), (traversal.mem_iff k _).2 ⟨isKey, rfl, solid⟩, rfl⟩

theorem IsTraversal.perm_iff (traversal : t.IsTraversal entries) (fits : n ≤ maxInteger) :
    (entries.map Prod.fst).Perm (itemKeys n) ↔ t.HasKeysTo (Int64.ofNat n) := by
  rw [List.perm_ext_iff_of_nodup traversal.distinct (nodup_itemKeys fits)]
  exact forall_congr' fun k => iff_congr (traversal.mem_keys k) (mem_itemKeys fits k)

/-- If the keys are the integers from one to some number, that number is the only border. -/
theorem IsBorder.eq_of_hasKeysTo (border : t.IsBorder n) {m : Nat} (positive : 0 < m)
    (fits : m ≤ maxInteger) (keys : t.HasKeysTo (Int64.ofNat m)) : n = m := by
  have present : ∀ i, i + 1 ≤ maxInteger → (t.get (.int (Int64.ofNat (i + 1))) ≠ .nil ↔ i + 1 ≤ m) := by
    intro i bound
    have there := keys (.int (Int64.ofNat (i + 1)))
    rw [← mem_itemKeys fits, itemKeys, List.mem_map] at there
    refine (and_iff_right (isKey_int _)).symm.trans (there.trans ⟨?_, fun inside => ?_⟩)
    · rintro ⟨j, inside, same⟩
      rw [List.mem_range] at inside
      have equal := congrArg Int64.toInt (Value.int.inj same)
      rw [toInt_ofNat (by omega), toInt_ofNat bound] at equal
      omega
    · exact ⟨i, List.mem_range.2 inside, rfl⟩
  have bound := border.le
  by_cases zero : n = 0
  · -- The first key is there, so zero is no border.
    subst zero
    have first := (present 0 (by omega)).2 positive
    exact absurd (border.absent (by omega)) first
  · obtain ⟨i, rfl⟩ := Nat.exists_eq_succ_of_ne_zero zero
    have inside := (present i bound).1 (border.present zero)
    by_cases last : i + 1 = maxInteger
    · omega
    · by_contra other
      exact (present (i + 1) (by omega)).2 (by omega) (border.absent last)

/-- Entries pass for a sequence just if the keys of the table are the integers from one on, and then the
reported length is the last of them. -/
theorem isSequence_iff (traversal : t.IsTraversal entries) (border : t.IsBorder n) :
    isSequence n entries = true ↔ 0 < n ∧ t.HasKeysTo (Int64.ofNat n) := by
  constructor
  · intro sequence
    obtain ⟨positive, fits, perm⟩ := perm_of_isSequence traversal.distinct sequence
    exact ⟨positive, (traversal.perm_iff fits).1 perm⟩
  · rintro ⟨positive, keys⟩
    exact isSequence_of_perm positive border.le ((traversal.perm_iff border.le).2 keys)

theorem exists_hasKeysTo_iff (border : t.IsBorder n) :
    (∃ m : Int64, 0 < m ∧ t.HasKeysTo m) ↔ 0 < n ∧ t.HasKeysTo (Int64.ofNat n) := by
  constructor
  · rintro ⟨m, positive, keys⟩
    obtain ⟨i, bound, rfl, -⟩ := exists_ofNat positive
    obtain rfl := border.eq_of_hasKeysTo (Nat.succ_pos i) bound keys
    exact ⟨Nat.succ_pos i, keys⟩
  · rintro ⟨positive, keys⟩
    refine ⟨Int64.ofNat n, ?_, keys⟩
    rw [Int64.lt_iff_toInt_lt, toInt_ofNat border.le, Int64.toInt_zero]
    omega

end Table

end VaultConsole.Lua
