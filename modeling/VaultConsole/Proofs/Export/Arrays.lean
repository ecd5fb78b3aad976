import VaultConsole.Proofs.Export.Shown

/-!
# Tables that become arrays

A table whose keys are the integers from one to some number becomes the array of what their values become
(`View.exportWithin_array`), and any other table becomes an object (`View.exportWithin_object`). Both hold of
every view of the heap, so neither the order of traversal nor the choice among several borders matters.
-/

namespace VaultConsole.Lua

/-! ## The items of an array -/

/-- Puts an item at the place of its key. -/
def putItem (items : Array ScriptValue) (e : Value × ScriptValue) : Array ScriptValue :=
  match e.1 with
  | .int i => items.setIfInBounds (i.toInt - 1).toNat e.2
  | _ => items

theorem putItem_itemKey {i : Nat} (fits : i + 1 ≤ Table.maxInteger) (items : Array ScriptValue)
    (v : ScriptValue) : putItem items (.int (Int64.ofNat (i + 1)), v) = items.setIfInBounds i v := by
  have place : ((Int64.ofNat (i + 1)).toInt - 1).toNat = i := by
    rw [toInt_ofNat fits]
    omega
  show items.setIfInBounds ((Int64.ofNat (i + 1)).toInt - 1).toNat v = _
  rw [place]

/-- Every place has the item of its key, or what was there before if no item has that key. -/
theorem getElem?_foldl_putItem {n : Nat} (fits : n ≤ Table.maxInteger) {i : Nat} (inside : i < n)
    {entries : List (Value × ScriptValue)} (areItems : ∀ e ∈ entries, e.1 ∈ itemKeys n)
    (distinct : (entries.map Prod.fst).Nodup) {items : Array ScriptValue} (size : items.size = n) :
    (∀ v, (.int (Int64.ofNat (i + 1)), v) ∈ entries → (entries.foldl putItem items)[i]? = some v) ∧
    (.int (Int64.ofNat (i + 1)) ∉ entries.map Prod.fst → (entries.foldl putItem items)[i]? = items[i]?) := by
  induction entries generalizing items with
  | nil => exact ⟨nofun, fun _ => rfl⟩
  | cons e entries ih =>
    obtain ⟨k, v⟩ := e
    rw [List.map_cons, List.nodup_cons] at distinct
    obtain ⟨j, inside', same⟩ := List.mem_map.1 (areItems (k, v) List.mem_cons_self)
    obtain rfl : Value.int (Int64.ofNat (j + 1)) = k := same
    rw [List.mem_range] at inside'
    have size' : (items.setIfInBounds j v).size = n := by rw [Array.size_setIfInBounds, size]
    obtain ⟨later, kept⟩ :=
      ih (fun e there => areItems e (List.mem_cons_of_mem _ there)) distinct.2 size'
    rw [List.foldl_cons, putItem_itemKey (by omega)]
    -- The entry fills this place, which no later one does, or it fills another one.
    by_cases here : i = j
    · subst here
      have put : (entries.foldl putItem (items.setIfInBounds i v))[i]? = some v := by
        rw [kept distinct.1]
        simp [size, inside]
      constructor
      · intro w there
        obtain same | there := List.mem_cons.1 there
        · rw [put, (Prod.mk.inj same).2]
        · exact absurd (List.mem_map_of_mem there) distinct.1
      · intro fresh
        exact absurd List.mem_cons_self fresh
    · have other : Value.int (Int64.ofNat (i + 1)) ≠ .int (Int64.ofNat (j + 1)) := by
        intro same
        have equal := congrArg Int64.toInt (Value.int.inj same)
        rw [toInt_ofNat (by omega), toInt_ofNat (by omega)] at equal
        omega
      constructor
      · intro w there
        obtain same | there := List.mem_cons.1 there
        · exact absurd (Prod.mk.inj same).1 other
        · exact later w there
      · intro fresh
        rw [kept fun there => fresh (List.mem_cons_of_mem _ there),
          Array.getElem?_setIfInBounds_ne fun same => here same.symm]

/-- The items of a sequence are those of its keys, in order. -/
theorem sequenceItems_eq {n : Nat} (fits : n ≤ Table.maxInteger) {entries : List (Value × ScriptValue)}
    (perm : (entries.map Prod.fst).Perm (itemKeys n)) {item : Nat → ScriptValue}
    (items : ∀ i < n, (.int (Int64.ofNat (i + 1)), item i) ∈ entries) :
    sequenceItems n entries = (List.range n).map item := by
  have filled : sequenceItems n entries =
      (entries.foldl putItem (Array.replicate n ScriptValue.nil)).toList := rfl
  -- Filling places leaves their number as it is.
  have size : ∀ (es : List (Value × ScriptValue)) (xs : Array ScriptValue),
      (es.foldl putItem xs).size = xs.size := by
    intro es
    induction es with
    | nil => exact fun _ => rfl
    | cons e es ih =>
      intro xs
      rw [List.foldl_cons, ih, putItem]
      split
      · exact Array.size_setIfInBounds
      · rfl
  refine List.ext_getElem? fun i => ?_
  rw [filled, Array.getElem?_toList]
  by_cases inside : i < n
  · have empty : (Array.replicate n ScriptValue.nil).size = n := Array.size_replicate
    have placed := (getElem?_foldl_putItem fits inside
      (fun e there => perm.mem_iff.1 (List.mem_map_of_mem there)) (perm.nodup_iff.2 (nodup_itemKeys fits))
      empty).1 (item i) (items i inside)
    rw [placed]
    simp [inside]
  · rw [Array.getElem?_eq_none (by rw [size, Array.size_replicate]; omega)]
    simp [inside]

/-! ## Tables as arrays -/

namespace View

variable {w : View} {h : Heap}

/-- Only nil becomes nil. -/
theorem exportWithin_ne_nil (w : View) (levels : Nat) {v : Value} (solid : v ≠ .nil) :
    w.exportWithin levels v ≠ .nil := by
  cases v with
  | nil => exact absurd rfl solid
  | table r =>
    cases levels with
    | zero => nofun
    | succ levels =>
      rw [exportWithin, exportEntries]
      split
      · nofun
      · nofun
  | _ =>
    unfold exportWithin
    nofun

/-- What a table that is opened becomes. -/
theorem exportWithin_table (w : View) (levels r : Nat) : w.exportWithin (levels + 1) (.table r) =
    exportEntries (w.length r) ((w.entries r).map fun e => (e.1, w.exportWithin levels e.2)) := rfl

/-- A table whose keys are the integers from one on becomes the array of their values. -/
theorem exportWithin_array (shows : w.Shows h) (levels : Nat) {r n : Nat} (positive : 0 < n)
    (fits : n ≤ Table.maxInteger) (keys : (h.table r).HasKeysTo (Int64.ofNat n)) :
    w.exportWithin (levels + 1) (.table r) = .array ((List.range n).map fun i =>
      w.exportWithin levels (h.rawGet r (.int (Int64.ofNat (i + 1))))) := by
  have traversal := shows.entries r
  have border := shows.length r
  obtain rfl := border.eq_of_hasKeysTo positive fits keys
  have sequence := (Table.isSequence_iff traversal border).2 ⟨positive, keys⟩
  have perm := (traversal.perm_iff fits).2 keys
  rw [exportWithin_table, exportEntries, isSequence_map, if_pos sequence]
  congr 1
  refine sequenceItems_eq fits (by rw [List.map_map]; exact perm) fun i inside => ?_
  have there : Value.int (Int64.ofNat (i + 1)) ∈ (w.entries r).map Prod.fst :=
    perm.mem_iff.2 (List.mem_map.2 ⟨i, List.mem_range.2 inside, rfl⟩)
  obtain ⟨isKey, solid⟩ := (traversal.mem_keys _).1 there
  exact List.mem_map.2 ⟨(_, _), (traversal.mem_iff _ _).2 ⟨isKey, rfl, solid⟩, rfl⟩

/-- The entries of a table under the names that their keys have in an object. -/
def fields (w : View) (r : Nat) : List (String × Value) := (w.entries r).map fun e => (exportKey e.1, e.2)

/-- Any other table becomes the object of its entries. -/
theorem exportWithin_object (shows : w.Shows h) (levels : Nat) {r : Nat}
    (other : ¬ ∃ n : Int64, 0 < n ∧ (h.table r).HasKeysTo n) :
    w.exportWithin (levels + 1) (.table r) = .object (ScriptValue.sortEntries
      ((w.fields r).map fun e => (e.1, w.exportWithin levels e.2))) := by
  have border := shows.length r
  rw [Table.exists_hasKeysTo_iff border, ← Table.isSequence_iff (shows.entries r) border] at other
  rw [exportWithin_table, exportEntries, isSequence_map, if_neg other, fields, List.map_map, List.map_map]
  rfl

/-- A table that is opened becomes an array just if its keys are the integers from one to some number, whatever
the order of traversal is and whichever border is reported. Then each item is what the value of its key becomes,
so that none is nil and the order does not matter; and any other table becomes an object. -/
theorem exportWithin_table_array_iff (shows : w.Shows h) (levels r : Nat) :
    ((∃ items, w.exportWithin (levels + 1) (.table r) = .array items) ↔
      ∃ n : Int64, 0 < n ∧ (h.table r).HasKeysTo n) ∧
    (∀ n : Int64, 0 < n → (h.table r).HasKeysTo n →
      let item (w : View) (i : Nat) := w.exportWithin levels (h.rawGet r (.int (Int64.ofNat (i + 1))))
      w.exportWithin (levels + 1) (.table r) = .array ((List.range n.toNatClampNeg).map (item w)) ∧
      (∀ i < n.toNatClampNeg, item w i ≠ .nil) ∧
      ∀ w' : View, w'.Shows h → (∀ i < n.toNatClampNeg, item w' i = item w i) →
        w'.exportWithin (levels + 1) (.table r) = w.exportWithin (levels + 1) (.table r)) ∧
    ((¬ ∃ n : Int64, 0 < n ∧ (h.table r).HasKeysTo n) →
      ∃ entries, w.exportWithin (levels + 1) (.table r) = .object entries) := by
  refine ⟨⟨?_, ?_⟩, ?_, fun other => ⟨_, exportWithin_object shows levels other⟩⟩
  · rintro ⟨items, array⟩
    by_contra other
    rw [exportWithin_object shows levels other] at array
    cases array
  · rintro ⟨n, positive, keys⟩
    obtain ⟨m, fits, rfl, -⟩ := exists_ofNat positive
    exact ⟨_, exportWithin_array shows levels (Nat.succ_pos m) fits keys⟩
  · intro n positive keys item
    obtain ⟨m, fits, rfl, clamp⟩ := exists_ofNat positive
    -- What the array is made of does not depend on the view, except inside the items.
    have array : ∀ {w : View}, w.Shows h → w.exportWithin (levels + 1) (.table r) =
        .array ((List.range (m + 1)).map (item w)) := fun shows =>
      exportWithin_array shows levels (Nat.succ_pos m) fits keys
    rw [clamp]
    refine ⟨array shows, ?_, ?_⟩
    · intro i inside
      have there : Value.int (Int64.ofNat (i + 1)) ∈ itemKeys (m + 1) :=
        List.mem_map.2 ⟨i, List.mem_range.2 inside, rfl⟩
      exact exportWithin_ne_nil w levels ((keys _).2 ((mem_itemKeys fits _).1 there)).2
    · intro w' shows' same
      rw [array shows', array shows, List.map_congr_left fun i inside => same i (List.mem_range.1 inside)]

theorem exportWithin_table_array_iff_pair :
    ∃ n : Int64, 0 < n ∧ ((Heap.ofItems [#[.bool true, .bool false]]).table 0).HasKeysTo n :=
  (exportWithin_table_array_iff (Heap.ofItems_shows (by decide)) 0 0).1.1
    ⟨[.boolean true, .boolean false], rfl⟩

end View

end VaultConsole.Lua
