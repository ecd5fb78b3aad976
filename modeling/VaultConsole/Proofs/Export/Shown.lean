import Mathlib.Algebra.Group.Nat.Defs
import VaultConsole.Proofs.Export.Sequences
import VaultConsole.Proofs.Failures
import VaultConsole.Proofs.Tables

/-!
# How a heap shows its tables

A lawful table is traversed through all of its items and entries, each once (`isTraversal_toList`), and the
search for a border ends at one (`isBorder_border`), as long as its array is not longer than integers can count.
So a lawful heap is shown by its own view (`Heap.view_shows`). Every heap that an engine reaches is lawful:
new sessions begin with tables that are, and whatever scripts do keeps them so (`Engine.serve_tables`).
-/

namespace VaultConsole.Lua

namespace Table

variable {t : Table}

/-- Whether the items of a table are no more than integers can count. -/
def Fits (t : Table) : Prop := t.items.size < maxInteger

/-! ## What a lawful table has -/

/-- A lawful table finds just the entries that it keeps. -/
theorem Lawful.entry_eq (lawful : t.Lawful) {k v : Value} (solid : v ≠ .nil) :
    t.entry k = v ↔ ∃ i : Nat, t.entries[i]? = some (k, v) := by
  rw [entry]
  cases found : t.index.get? k with
  | none =>
    constructor
    · exact fun same => absurd same.symm solid
    · rintro ⟨i, there⟩
      rw [(lawful.index_eq k i).2 ⟨v, there⟩] at found
      cases found
  | some i =>
    obtain ⟨w, there⟩ := (lawful.index_eq k i).1 found
    simp only [Array.getD_eq_getD_getElem?, there, Option.getD_some]
    constructor
    · rintro rfl
      exact ⟨i, there⟩
    · rintro ⟨j, there'⟩
      have same := (lawful.index_eq k j).2 ⟨v, there'⟩
      rw [found] at same
      obtain rfl := Option.some.inj same
      rw [there] at there'
      exact (Prod.mk.inj (Option.some.inj there')).2

/-- Where nothing is kept among the entries, nothing is found there. -/
theorem Lawful.entry_of_isEmpty (lawful : t.Lawful) (empty : t.entries.isEmpty = true) (k : Value) :
    t.entry k = .nil := by
  by_contra solid
  obtain ⟨i, there⟩ := (lawful.entry_eq solid).1 rfl
  rw [Array.isEmpty_iff] at empty
  rw [empty] at there
  cases there

/-- A key is looked up in its place of the array, and else among the entries. -/
theorem Lawful.get_eq (lawful : t.Lawful) {k : Value} (isKey : IsKey k) :
    t.get k = match t.position? k with
      | some i => t.items.getD i .nil
      | none => t.entry k := by
  -- Nothing is looked up where there are no entries, which comes to the same.
  have guarded : ∀ k, (if t.entries.isEmpty then .nil else t.entry k) = t.entry k := by
    intro k
    split
    · rename_i empty
      exact (lawful.entry_of_isEmpty empty k).symm
    · rfl
  have plain : ∀ k, (if t.entries.isEmpty && t.items.isEmpty then .nil else t.entry k) = t.entry k := by
    intro k
    split
    · rename_i empty
      rw [Bool.and_eq_true] at empty
      exact (lawful.entry_of_isEmpty empty.1 k).symm
    · rfl
  cases k with
  | nil => exact absurd rfl isKey.ne_nil
  | int n =>
    show t.getInt n = _
    rw [getInt, position?]
    split
    · rfl
    · exact guarded (.int n)
  | float b =>
    rw [get_float, isKey.normal]
    exact plain (.float b)
  | _ => exact plain _

/-- The place of an integer in the array. -/
theorem position?_ofNat {i : Nat} (inside : i < t.items.size) (fits : t.Fits) :
    t.position? (.int (Int64.ofNat (i + 1))) = some i := by
  have small : i + 1 ≤ maxInteger := by
    rw [Fits] at fits
    omega
  have positive : 0 < Int64.ofNat (i + 1) := by
    rw [Int64.lt_iff_toInt_lt, toInt_ofNat small, Int64.toInt_zero]
    omega
  have clamp : (Int64.ofNat (i + 1)).toNatClampNeg = i + 1 := Int64.toNatClampNeg_ofNat_of_lt (by
    rw [maxInteger] at small
    omega)
  have here : (decide (0 < Int64.ofNat (i + 1)) && decide (i + 1 ≤ t.items.size)) = true := by
    rw [decide_eq_true positive, decide_eq_true (Nat.succ_le_of_lt inside)]
    rfl
  rw [position?, clamp, if_pos here]
  rfl

theorem position?_eq_some {k : Value} {i : Nat} (place : t.position? k = some i) :
    i < t.items.size ∧ k = .int (Int64.ofNat (i + 1)) := by
  cases k with
  | int n =>
    rw [position?] at place
    split at place
    · rename_i inside
      rw [Bool.and_eq_true, decide_eq_true_eq, decide_eq_true_eq] at inside
      obtain ⟨m, -, rfl, clamp⟩ := exists_ofNat inside.1
      rw [clamp] at place inside
      obtain rfl := Option.some.inj place
      exact ⟨inside.2, rfl⟩
    · cases place
  | _ => cases place

/-! ## Traversal -/

/-- The entries of the items from a position on. -/
def itemEntries : Nat → List Value → List (Value × Value)
  | _, [] => []
  | i, v :: vs =>
    if v.isNil then itemEntries (i + 1) vs else (.int (Int64.ofNat (i + 1)), v) :: itemEntries (i + 1) vs

/-- The items that a traversal collects, latest first, after what it has collected before. -/
theorem reverse_foldl_items (vs : List Value) (kept : List (Value × Value)) (i : Nat) :
    (vs.foldl (fun (kept, i) v =>
      (if v.isNil then kept else (Value.int (Int64.ofNat (i + 1)), v) :: kept, i + 1)) (kept, i)).1.reverse =
      kept.reverse ++ itemEntries i vs := by
  induction vs generalizing kept i with
  | nil => exact (List.append_nil _).symm
  | cons v vs ih =>
    rw [List.foldl_cons, ih, itemEntries]
    split
    · rfl
    · rw [List.reverse_cons, List.append_assoc]
      rfl

/-- A traversal goes through the items and then through the other entries. -/
theorem toList_eq (t : Table) :
    t.toList = itemEntries 0 t.items.toList ++ t.entries.toList.filter fun e => !e.2.isNil := by
  have items := reverse_foldl_items t.items.toList [] 0
  rw [Array.foldl_toList] at items
  rw [toList]
  exact congrArg (· ++ _) items

theorem mem_itemEntries (i : Nat) {vs : List Value} {k v : Value} :
    (k, v) ∈ itemEntries i vs ↔ ∃ j : Nat, vs[j]? = some v ∧ v ≠ .nil ∧ k = .int (Int64.ofNat (i + j + 1)) := by
  induction vs generalizing i with
  | nil => simp [itemEntries]
  | cons x vs ih =>
    have later : (k, v) ∈ itemEntries (i + 1) vs ↔
        ∃ j : Nat, (x :: vs)[j + 1]? = some v ∧ v ≠ .nil ∧ k = .int (Int64.ofNat (i + (j + 1) + 1)) := by
      refine (ih (i + 1)).trans ?_
      simp only [List.getElem?_cons_succ, Nat.add_assoc, Nat.add_comm 1]
    rw [itemEntries]
    split
    · -- A place without a value is passed over, so that the places behind it count one more.
      rename_i absent
      rw [Value.isNil_iff] at absent
      rw [later]
      constructor
      · rintro ⟨j, there⟩
        exact ⟨j + 1, there⟩
      · rintro ⟨j, there, solid, same⟩
        cases j with
        | zero => exact absurd ((Option.some.inj there).symm.trans absent) solid
        | succ j => exact ⟨j, there, solid, same⟩
    · rename_i present
      rw [Value.isNil_iff] at present
      rw [List.mem_cons, later, Prod.mk.injEq]
      constructor
      · rintro (⟨rfl, rfl⟩ | ⟨j, there⟩)
        · exact ⟨0, rfl, present, rfl⟩
        · exact ⟨j + 1, there⟩
      · rintro ⟨j, there, solid, same⟩
        cases j with
        | zero => exact .inl ⟨same, (Option.some.inj there).symm⟩
        | succ j => exact .inr ⟨j, there, solid, same⟩

/-- The keys of items are some of the integers, in their order. -/
theorem keys_itemEntries_sublist (i : Nat) (vs : List Value) : ((itemEntries i vs).map Prod.fst).Sublist
    ((List.range' i vs.length).map fun j => Value.int (Int64.ofNat (j + 1))) := by
  induction vs generalizing i with
  | nil => exact List.Sublist.refl _
  | cons v vs ih =>
    rw [itemEntries, List.length_cons, List.range'_succ, List.map_cons]
    split
    · exact (ih (i + 1)).cons _
    · exact (ih (i + 1)).cons_cons _

/-- What a traversal gives: the items that are something, and the entries that are something. -/
theorem mem_toList_iff {k v : Value} : (k, v) ∈ t.toList ↔
    (∃ i : Nat, t.items[i]? = some v ∧ v ≠ .nil ∧ k = .int (Int64.ofNat (i + 1))) ∨
      (∃ i : Nat, t.entries[i]? = some (k, v)) ∧ v ≠ .nil := by
  rw [toList_eq, List.mem_append, mem_itemEntries, List.mem_filter, Array.mem_toList_iff,
    Array.mem_iff_getElem?]
  simp only [Nat.zero_add, Array.getElem?_toList]
  refine or_congr_right (and_congr_right fun _ => ?_)
  rw [Bool.not_eq_true', ← Bool.not_eq_true, Value.isNil_iff]

/-- A lawful table has one entry for each key, since two of them would both be where the index leads. -/
theorem Lawful.nodup_entries (lawful : t.Lawful) : (t.entries.toList.map Prod.fst).Nodup := by
  rw [List.nodup_iff_injective_get]
  intro i j same
  have place : ∀ i : Fin (t.entries.toList.map Prod.fst).length,
      t.index.get? ((t.entries.toList.map Prod.fst).get i) = some i.1 := by
    intro i
    have inside : i.1 < t.entries.size := by simpa using i.2
    refine (lawful.index_eq _ _).2 ⟨t.entries[i.1].2, ?_⟩
    rw [Array.getElem?_eq_getElem inside]
    simp
  have places := place i
  rw [same, place j] at places
  exact (Fin.ext (Option.some.inj places)).symm

/-- No item of a lawful table is kept among its entries too. -/
theorem Lawful.items_apart (lawful : t.Lawful) (fits : t.Fits) {k v v' : Value}
    (item : (k, v) ∈ itemEntries 0 t.items.toList) : (k, v') ∉ t.entries.toList := by
  intro entry
  obtain ⟨j, there, -, rfl⟩ := (mem_itemEntries 0).1 item
  obtain ⟨i, entry⟩ := Array.mem_iff_getElem?.1 (Array.mem_toList_iff.1 entry)
  have inside : 0 + j < t.items.size := by
    rw [Array.getElem?_toList] at there
    obtain ⟨inside, -⟩ := Array.getElem?_eq_some_iff.1 there
    omega
  have outside := lawful.apart entry
  rw [position?_ofNat inside fits] at outside
  cases outside

theorem Lawful.nodup_toList (lawful : t.Lawful) (fits : t.Fits) : (t.toList.map Prod.fst).Nodup := by
  rw [toList_eq, List.map_append, List.nodup_append]
  refine ⟨?_, lawful.nodup_entries.sublist (List.filter_sublist.map Prod.fst), ?_⟩
  · have keys := keys_itemEntries_sublist 0 t.items.toList
    rw [← List.range_eq_range', Array.length_toList] at keys
    exact (nodup_itemKeys (Nat.le_of_lt fits)).sublist keys
  · intro k inItems k' inEntries same
    subst same
    obtain ⟨⟨k', v⟩, item, rfl⟩ := List.mem_map.1 inItems
    obtain ⟨⟨k'', v'⟩, entry, same⟩ := List.mem_map.1 inEntries
    obtain rfl : k'' = k' := same
    exact lawful.items_apart fits item (List.mem_filter.1 entry).1

/-- A lawful table is traversed through all that it has, each once. -/
theorem isTraversal_toList (lawful : t.Lawful) (fits : t.Fits) : t.IsTraversal t.toList := by
  refine ⟨lawful.nodup_toList fits, fun k v => mem_toList_iff.trans ⟨?_, ?_⟩⟩
  · rintro (⟨i, there, solid, rfl⟩ | ⟨⟨i, there⟩, solid⟩)
    · obtain ⟨inside, -⟩ := Array.getElem?_eq_some_iff.1 there
      refine ⟨isKey_int _, ?_, solid⟩
      rw [lawful.get_eq (isKey_int _), position?_ofNat inside fits]
      simp [Array.getD_eq_getD_getElem?, there]
    · refine ⟨lawful.isKey there, ?_, solid⟩
      rw [lawful.get_eq (lawful.isKey there), lawful.apart there]
      exact (lawful.entry_eq solid).2 ⟨i, there⟩
  · rintro ⟨isKey, got, solid⟩
    rw [lawful.get_eq isKey] at got
    cases place : t.position? k with
    | none =>
      rw [place] at got
      exact .inr ⟨(lawful.entry_eq solid).1 got, solid⟩
    | some i =>
      rw [place] at got
      obtain ⟨inside, rfl⟩ := position?_eq_some place
      refine .inl ⟨i, ?_, solid, rfl⟩
      rw [← got]
      simp [Array.getD_eq_getD_getElem?, inside]

/-! ## Borders -/

/-- Halving between a present and an absent number ends at a border. -/
theorem halve_spec (present : Nat → Bool) (fuel : Nat) {i j : Nat} (low : i = 0 ∨ present i = true)
    (high : present j = false) (less : i < j) (near : j ≤ i + 2 ^ fuel) :
    let n := halve present fuel i j
    i ≤ n ∧ n < j ∧ (n = 0 ∨ present n = true) ∧ present (n + 1) = false := by
  have next : ∀ {i j}, (i = 0 ∨ present i = true) → present j = false → i < j → j ≤ i + 1 →
      i ≤ i ∧ i < j ∧ (i = 0 ∨ present i = true) ∧ present (i + 1) = false := by
    intro i j low high less adjacent
    obtain rfl : j = i + 1 := by omega
    exact ⟨Nat.le_refl i, less, low, high⟩
  -- Each time the distance is halved, with a present number below and an absent one above.
  induction fuel generalizing i j with
  | zero => exact next low high less near
  | succ fuel ih =>
    unfold halve
    by_cases adjacent : j ≤ i + 1
    · simp only [if_pos adjacent]
      exact next low high less adjacent
    · have half : (i + j) / 2 ≤ i + 2 ^ fuel ∧ j ≤ (i + j) / 2 + 2 ^ fuel := by
        rw [Nat.pow_succ] at near
        omega
      simp only [if_neg adjacent]
      cases middle : present ((i + j) / 2) with
      | true =>
        rw [if_pos rfl]
        obtain ⟨above, below, border⟩ := ih (.inr middle) high (by omega) half.2
        exact ⟨by omega, below, border⟩
      | false =>
        rw [if_neg Bool.false_ne_true]
        obtain ⟨above, below, border⟩ := ih low middle (by omega) half.1
        exact ⟨above, by omega, border⟩

/-- Doubling and then halving ends at a border. -/
theorem borderFrom_spec (present : Nat → Bool) (fuel : Nat) {i : Nat} (low : present i = true)
    (positive : 0 < i) (le : i ≤ maxInteger) (far : maxInteger < i * 2 ^ fuel) :
    let n := borderFrom present fuel i
    n ≤ maxInteger ∧ present n = true ∧ (n = maxInteger ∨ present (n + 1) = false) := by
  have between : ∀ {i j}, present i = true → i < j → j ≤ maxInteger → present j = false →
      let n := halve present 64 i j
      n ≤ maxInteger ∧ present n = true ∧ (n = maxInteger ∨ present (n + 1) = false) := by
    intro i j low less bound high
    have near : j ≤ i + 2 ^ 64 := by
      rw [maxInteger] at bound
      omega
    obtain ⟨above, below, here, after⟩ := halve_spec present 64 (.inr low) high less near
    refine ⟨by omega, ?_, .inr after⟩
    obtain zero | here := here
    · have first : i = 0 := by omega
      rw [zero, ← first]
      exact low
    · exact here
  -- The number is doubled as long as it is present and can be doubled.
  induction fuel generalizing i with
  | zero => omega
  | succ fuel ih =>
    unfold borderFrom
    by_cases small : i ≤ maxInteger / 2
    · simp only [if_pos small]
      cases twice : present (2 * i) with
      | true =>
        rw [if_pos rfl]
        have far' : maxInteger < 2 * i * 2 ^ fuel := by
          rwa [Nat.pow_succ, Nat.mul_comm (2 ^ fuel) 2, ← Nat.mul_assoc, Nat.mul_comm i 2] at far
        exact ih twice (by omega) (by omega) far'
      | false =>
        rw [if_neg Bool.false_ne_true]
        exact between low (by omega) (by omega) twice
    · simp only [if_neg small]
      cases last : present maxInteger with
      | true =>
        rw [if_pos rfl]
        exact ⟨Nat.le_refl _, last, .inl rfl⟩
      | false =>
        rw [if_neg Bool.false_ne_true]
        have other : i ≠ maxInteger := by
          rintro rfl
          rw [low] at last
          cases last
        exact between low (by omega) (Nat.le_refl _) last

/-- Whether a table has a value under a number. -/
def knows (t : Table) (k : Nat) : Bool := !(t.getInt (Int64.ofNat k)).isNil

theorem knows_iff (t : Table) (k : Nat) : t.knows k = true ↔ t.get (.int (Int64.ofNat k)) ≠ .nil := by
  show (!(t.getInt (Int64.ofNat k)).isNil) = true ↔ t.getInt (Int64.ofNat k) ≠ .nil
  rw [Bool.not_eq_true', ← Bool.not_eq_true, Value.isNil_iff]

theorem isBorder_of_knows {n : Nat} (le : n ≤ maxInteger) (here : n = 0 ∨ t.knows n = true)
    (after : n = maxInteger ∨ t.knows (n + 1) = false) : t.IsBorder n where
  le := le
  present solid := (t.knows_iff n).1 (here.resolve_left solid)
  absent other := by
    have nothing := after.resolve_left other
    rw [← Bool.not_eq_true, knows_iff, not_not] at nothing
    exact nothing

/-- Whether the array has a value in the place of a number. -/
def hasItem (t : Table) (k : Nat) : Bool := !(t.items.getD (k - 1) .nil).isNil

/-- Inside the array, what is known is what stands there. -/
theorem Lawful.knows_eq (lawful : t.Lawful) (fits : t.Fits) {k : Nat} (positive : 0 < k)
    (le : k ≤ t.items.size) : t.knows k = t.hasItem k := by
  obtain ⟨i, rfl⟩ := Nat.exists_eq_succ_of_ne_zero (Nat.ne_of_gt positive)
  have got := lawful.get_eq (isKey_int (Int64.ofNat (i + 1)))
  rw [position?_ofNat le fits] at got
  exact congrArg (fun v : Value => !v.isNil) got

/-- Without other entries, nothing is known behind the array. -/
theorem Lawful.knows_beyond (lawful : t.Lawful) (fits : t.Fits) (empty : t.entries.isEmpty = true) :
    t.knows (t.items.size + 1) = false := by
  rw [Fits] at fits
  have outside : t.position? (.int (Int64.ofNat (t.items.size + 1))) = none := by
    cases place : t.position? (.int (Int64.ofNat (t.items.size + 1))) with
    | none => rfl
    | some i =>
      obtain ⟨inside, same⟩ := position?_eq_some place
      have equal := congrArg Int64.toInt (Value.int.inj same)
      rw [toInt_ofNat (by omega), toInt_ofNat (by omega)] at equal
      omega
  have got := lawful.get_eq (isKey_int (Int64.ofNat (t.items.size + 1)))
  rw [outside, lawful.entry_of_isEmpty empty] at got
  rw [← Bool.not_eq_true, knows_iff, not_not]
  exact got

/-- Halving inside the array ends at a border. -/
theorem Lawful.isBorder_halve (lawful : t.Lawful) (fits : t.Fits) {i j : Nat}
    (low : i = 0 ∨ t.hasItem i = true) (high : t.hasItem j = false) (less : i < j)
    (le : j ≤ t.items.size) : t.IsBorder (halve t.hasItem 64 i j) := by
  have small : t.items.size < maxInteger := fits
  have near : j ≤ i + 2 ^ 64 := by
    rw [maxInteger] at small
    omega
  obtain ⟨above, below, here, after⟩ := halve_spec t.hasItem 64 low high less near
  refine isBorder_of_knows (by omega) ?_ (.inr ?_)
  · by_cases zero : halve t.hasItem 64 i j = 0
    · exact .inl zero
    · exact .inr ((lawful.knows_eq fits (Nat.pos_of_ne_zero zero) (by omega)).trans (here.resolve_left zero))
  · exact (lawful.knows_eq fits (Nat.succ_pos _) (by omega)).trans after

/-- Behind the last item of a full array, the search goes on among the other entries. -/
theorem Lawful.isBorder_beyond (lawful : t.Lawful) (fits : t.Fits)
    (last : t.items.size = 0 ∨ t.hasItem t.items.size = true) :
    t.IsBorder (if t.entries.isEmpty || !t.knows (t.items.size + 1) then t.items.size
      else borderFrom t.knows 63 (max t.items.size 1)) := by
  have small : t.items.size < maxInteger := fits
  have known : t.items.size = 0 ∨ t.knows t.items.size = true := by
    by_cases zero : t.items.size = 0
    · exact .inl zero
    · exact .inr ((lawful.knows_eq fits (by omega) (Nat.le_refl _)).trans (last.resolve_left zero))
  split
  · rename_i ends
    refine isBorder_of_knows (Nat.le_of_lt small) known (.inr ?_)
    rw [Bool.or_eq_true, Bool.not_eq_true'] at ends
    exact ends.elim (lawful.knows_beyond fits) id
  · rename_i more
    rw [Bool.or_eq_true, not_or, Bool.not_eq_true', Bool.not_eq_false] at more
    have low : t.knows (max t.items.size 1) = true := by
      by_cases zero : t.items.size = 0
      · rw [zero] at more ⊢
        exact more.2
      · rw [Nat.max_eq_left (by omega)]
        exact known.resolve_left zero
    -- Doubling as often as an integer has bits leads beyond the greatest one.
    have far : maxInteger < max t.items.size 1 * 2 ^ 63 := by
      have huge : maxInteger < 2 ^ 63 := by decide
      omega
    obtain ⟨le, here, after⟩ := borderFrom_spec t.knows 63 low (by omega) (by omega) far
    exact isBorder_of_knows le (.inr here) after

/-- The search for a border ends at one. -/
theorem isBorder_border (lawful : t.Lawful) (fits : t.Fits) : t.IsBorder t.border.1 := by
  have inside := lawful.limit_le
  have small : t.items.size < maxInteger := fits
  unfold border
  simp only []
  -- By the length that was reported last: whether an item stands there, and what is next to it.
  split
  · rename_i absent
    rw [Bool.and_eq_true, decide_eq_true_eq, Bool.not_eq_true'] at absent
    split
    · rename_i previous
      rw [Bool.and_eq_true, decide_eq_true_eq] at previous
      refine isBorder_of_knows (by omega) (.inr ?_) (.inr ?_)
      · exact (lawful.knows_eq fits (by omega) (by omega)).trans previous.2
      · rw [Nat.sub_add_cancel (by omega)]
        exact (lawful.knows_eq fits absent.1 inside).trans absent.2
    · exact lawful.isBorder_halve fits (.inl rfl) absent.2 absent.1 inside
  · rename_i present
    have low : t.limit = 0 ∨ t.hasItem t.limit = true := by
      rw [Bool.and_eq_true, not_and, decide_eq_true_eq, Bool.not_eq_true', Bool.not_eq_false] at present
      exact (Nat.eq_zero_or_pos t.limit).imp_right present
    split
    · rename_i more
      split
      · rename_i after
        rw [Bool.not_eq_true'] at after
        refine isBorder_of_knows (by omega) ?_
          (.inr ((lawful.knows_eq fits (Nat.succ_pos _) more).trans after))
        by_cases zero : t.limit = 0
        · exact .inl zero
        · exact .inr ((lawful.knows_eq fits (by omega) inside).trans (low.resolve_left zero))
      · split
        · rename_i high
          rw [Bool.not_eq_true'] at high
          exact lawful.isBorder_halve fits low high more (Nat.le_refl _)
        · rename_i full
          rw [Bool.not_eq_true, Bool.not_eq_false'] at full
          exact lawful.isBorder_beyond fits (.inr full)
    · rename_i whole
      obtain same : t.limit = t.items.size := by omega
      rw [same] at low
      exact lawful.isBorder_beyond fits low

end Table

/-! ## Lawful heaps -/

/-- Whether the items of every table are no more than integers can count. -/
def Heap.Fits (h : Heap) : Prop := ∀ r, (h.table r).Fits

/-- A lawful heap is shown as it is traversed and measured. -/
theorem Heap.view_shows {h : Heap} (lawful : h.Lawful) (fits : h.Fits) : h.view.Shows h where
  entries r := Table.isTraversal_toList (lawful r) (fits r)
  length r := Table.isBorder_border (lawful r) (fits r)

namespace Table

/-- Whether all of some tables are lawful. -/
def AllLawful (ts : Array Table) : Prop := ∀ t ∈ ts, t.Lawful

variable {ts : Array Table}

theorem AllLawful.push (all : AllLawful ts) {t : Table} (new : t.Lawful) : AllLawful (ts.push t) := by
  intro s there
  obtain there | rfl := Array.mem_push.1 there
  · exact all s there
  · exact new

theorem AllLawful.modify (all : AllLawful ts) (r : Nat) {f : Table → Table} (filled : ∀ t, (f t).Lawful) :
    AllLawful (ts.modify r f) := by
  intro s there
  obtain ⟨i, there⟩ := Array.mem_iff_getElem?.1 there
  rw [Array.getElem?_modify] at there
  split at there
  · obtain ⟨t, -, rfl⟩ := Option.map_eq_some_iff.1 there
    exact filled t
  · exact all s (Array.mem_iff_getElem?.2 ⟨i, there⟩)

theorem AllLawful.heap {h : Heap} (all : AllLawful h.tables) : h.Lawful := by
  intro r
  rw [Heap.table, Array.getD_eq_getD_getElem?]
  cases there : h.tables[r]? with
  | none => exact lawful_bare (Nat.le_refl 0) _ _
  | some t => exact all t (Array.mem_iff_getElem?.2 ⟨r, there⟩)

end Table

/-- A heap of some tables. -/
def Heap.ofTables (tables : List Table) : Heap := { Library.emptyHeap none with tables := tables.toArray }

theorem Heap.ofTables_shows {tables : List Table} (lawful : ∀ t ∈ tables, t.Lawful) (fit : ∀ t ∈ tables, t.Fits) :
    (ofTables tables).view.Shows (ofTables tables) := by
  refine view_shows (Table.AllLawful.heap fun t there => lawful t (List.mem_toArray.1 there)) fun r => ?_
  rw [table, Array.getD_eq_getD_getElem?]
  cases there : (ofTables tables).tables[r]? with
  | none => exact (by decide : 0 < Table.maxInteger)
  | some t => exact fit t (List.mem_toArray.1 (Array.mem_iff_getElem?.2 ⟨r, there⟩))

/-- A table that has just these items. -/
def Table.ofItems (items : Array Value) : Table := ⟨items, items.size, #[], ∅, 0, none⟩

/-- A heap whose tables have just these items. -/
def Heap.ofItems (tables : List (Array Value)) : Heap := ofTables (tables.map Table.ofItems)

theorem Heap.ofItems_shows {tables : List (Array Value)}
    (fit : ∀ items ∈ tables, items.size < Table.maxInteger) : (ofItems tables).view.Shows (ofItems tables) := by
  refine ofTables_shows ?_ ?_
  · rw [List.forall_mem_map]
    exact fun items _ => Table.lawful_bare (Nat.le_refl _) _ _
  · rw [List.forall_mem_map]
    exact fit

namespace Library

theorem lawful_tableOf (entries : List (String × Value)) : (tableOf entries).Lawful :=
  Table.lawful_foldl (Table.lawful_withRoom _ _) fun _ e _ lawful => lawful.setText e.1 e.2

theorem allLawful_addTables {h : Heap} (all : Table.AllLawful h.tables)
    (libraries : List (String × List (String × Value))) : Table.AllLawful (addTables h libraries).1.tables := by
  induction libraries generalizing h with
  | nil => exact all
  | cons library libraries ih => exact ih (all.push (lawful_tableOf library.2))

theorem lawful_startHeap (limit? : Option Nat) : (startHeap limit?).Lawful := by
  have empty : Table.AllLawful (emptyHeap limit?).tables := fun _ held => nomatch held
  refine Table.AllLawful.heap ?_
  unfold startHeap
  simp only [Heap.modifyTable, addTable, Heap.newTable]
  -- The tables of globals and of loaded packages are filled when all others are there.
  refine Table.AllLawful.modify (Table.AllLawful.modify ?_ _ fun _ => lawful_tableOf _) _ fun _ => lawful_tableOf _
  iterate 8 refine Table.AllLawful.push ?_ (lawful_tableOf _)
  refine Table.AllLawful.push ?_ ((Table.lawful_withRoom 3 0).setItems 0 _)
  refine Table.AllLawful.push (allLawful_addTables ?_ _) (lawful_tableOf _)
  exact (empty.push (lawful_tableOf _)).push (lawful_tableOf _)

end Library

theorem Session.lawful_fresh (limit? : Option Nat) : (fresh limit?).heap.Lawful := by
  intro r
  rw [table_fresh]
  exact Library.lawful_startHeap limit? r

end VaultConsole.Lua

namespace VaultConsole.Engine

/-- The tables of an engine are lawful after any requests. -/
theorem serve_tables (config : EngineConfig) (requests : List Request) {s : Lua.Session}
    (has : ((new config).serve requests).session? = some s) : s.heap.Lawful := by
  have before : ∀ s, (new config).session? = some s → s.heap.Lawful := fun _ held => nomatch held
  exact session_serve Lua.Session.lawful_fresh (fun lawful later => later.tables lawful) before requests s has

end VaultConsole.Engine
