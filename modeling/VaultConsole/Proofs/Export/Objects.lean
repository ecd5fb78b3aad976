import VaultConsole.Proofs.Export.Unfolding

/-!
# Tables that become objects

An object has the names of all keys of its table, each with what becomes of the last entry of that name, and
nothing that becomes an item or an entry is nil (`View.not_at_nil`). So the order of traversal matters only where
keys share a name: if the keys of all tables that are opened have different names, every view of the heap
gives the same (`View.exportWithin_order`).
-/

namespace VaultConsole.Lua

open ScriptValue (At IsLast Ascending)

variable {w w' : View} {h : Heap}

/-- Whether the keys of a table have different names. -/
def Table.NamesDiffer (t : Table) : Prop :=
  ∀ k k', t.HasKey k → t.HasKey k' → exportKey k = exportKey k' → k = k'

/-- Two traversals differ in their order only. -/
theorem Table.IsTraversal.perm {t : Table} {es es' : List (Value × Value)} (traversal : t.IsTraversal es)
    (traversal' : t.IsTraversal es') : es.Perm es' := by
  rw [List.perm_ext_iff_of_nodup traversal.distinct.of_map traversal'.distinct.of_map]
  exact fun e => (traversal.mem_iff e.1 e.2).trans (traversal'.mem_iff e.1 e.2).symm

namespace View

/-! ## What stands in data -/

theorem map_fst_fields (w : View) (r : Nat) :
    (w.fields r).map Prod.fst = ((w.entries r).map Prod.fst).map exportKey := by
  rw [fields, List.map_map, List.map_map]
  rfl

/-- The names of a table are those of its keys. -/
theorem mem_names (shows : w.Shows h) {r : Nat} {key : String} :
    key ∈ (w.fields r).map Prod.fst ↔ ∃ k, (h.table r).HasKey k ∧ exportKey k = key := by
  rw [map_fst_fields, List.mem_map]
  exact exists_congr fun k => and_congr_left fun _ => (shows.entries r).mem_keys k

theorem nodup_names (shows : w.Shows h) {r : Nat} (differ : (h.table r).NamesDiffer) :
    ((w.fields r).map Prod.fst).Nodup := by
  rw [map_fst_fields]
  refine List.Nodup.map_on (fun k there k' there' => ?_) (shows.entries r).distinct
  exact differ k k' (((shows.entries r).mem_keys k).1 there) (((shows.entries r).mem_keys k').1 there')

/-- What a path leads to inside of tables is not nil. -/
theorem Leads.ne_nil (shows : w.Shows h) {v u : Value} {path : List ScriptValue.Place}
    (leads : w.Leads h v path u) (inside : path ≠ []) : u ≠ .nil := by
  induction leads with
  | here v => exact absurd rfl inside
  | @through r place path v u child leads ih =>
    cases path with
    | nil =>
      obtain rfl := leads_nil.1 leads
      obtain ⟨k, ⟨-, solid⟩, rfl⟩ := child.exists_key shows
      exact solid
    | cons place path => exact ih (List.cons_ne_nil _ _)

theorem not_at_nil (shows : w.Shows h) (levels : Nat) (v : Value) {path : List ScriptValue.Place}
    (inside : path ≠ []) : ¬ At (w.exportWithin levels v) path .nil := by
  intro there
  obtain ⟨-, u, leads, same⟩ := (at_exportWithin shows path levels v .nil).1 there
  exact exportWithin_ne_nil w _ (leads.ne_nil shows inside) same.symm

/-! ## Orders of traversal -/

/-- Views of one heap give the same if the keys of every table that is opened have different names. -/
theorem exportWithin_order (shows : w.Shows h) (shows' : w'.Shows h) (levels : Nat) (v : Value)
    (differ : ∀ n r, n < levels → h.Reaches v n (.table r) → (h.table r).NamesDiffer) :
    w.exportWithin levels v = w'.exportWithin levels v := by
  induction levels generalizing v with
  | zero =>
    cases v with
    | table r => rfl
    | _ => exact exportWithin_leaf w w' 0 nofun
  | succ levels ih =>
    cases v with
    | table r =>
      have within : ∀ k, (h.table r).HasKey k →
          w.exportWithin levels (h.rawGet r k) = w'.exportWithin levels (h.rawGet r k) := fun k has =>
        ih _ fun n r' less reaches => differ (n + 1) r' (Nat.succ_lt_succ less) (.through has reaches)
      -- An array does not know the order of traversal; an object is put in the order of its names.
      by_cases sequence : ∃ n : Int64, 0 < n ∧ (h.table r).HasKeysTo n
      · obtain ⟨n, positive, keys⟩ := sequence
        obtain ⟨m, fits, rfl, -⟩ := exists_ofNat positive
        rw [exportWithin_array shows levels (Nat.succ_pos m) fits keys,
          exportWithin_array shows' levels (Nat.succ_pos m) fits keys]
        congr 1
        refine List.map_congr_left fun i inside => within _ ((keys _).2 ?_)
        exact (mem_itemKeys fits _).1 (List.mem_map_of_mem inside)
      · rw [exportWithin_object shows levels sequence, exportWithin_object shows' levels sequence]
        have perm : (w.fields r).Perm (w'.fields r) := ((shows.entries r).perm (shows'.entries r)).map _
        have same : ((w.fields r).map fun e => (e.1, w.exportWithin levels e.2)) =
            (w.fields r).map fun e => (e.1, w'.exportWithin levels e.2) := by
          refine List.map_congr_left fun e there => ?_
          obtain ⟨⟨k, u⟩, listed, rfl⟩ := List.mem_map.1 there
          obtain ⟨isKey, got, solid⟩ := ((shows.entries r).mem_iff k u).1 listed
          have value := within k ⟨isKey, got ▸ solid⟩
          rw [Heap.rawGet, got] at value
          exact Prod.ext rfl value
        rw [same]
        refine congrArg ScriptValue.object (ScriptValue.sortEntries_perm (perm.map _) ?_)
        rw [List.map_map]
        exact nodup_names shows (differ 0 r (Nat.succ_pos levels) (.here _))
    | _ => exact exportWithin_leaf w w' _ nofun

/-- A table that becomes an object keeps the names of all of its keys, in ascending order, each with what becomes
of the last entry of that name. Nothing that is in data is nil. If the keys of every table that is opened have
different names, all views of the heap give the same; and integers have different names, as have strings that
are text. -/
theorem exportWithin_table_object (shows : w.Shows h) :
    (∀ levels r entries, w.exportWithin (levels + 1) (.table r) = .object entries →
      Ascending entries ∧
      (∀ key, key ∈ entries.map Prod.fst ↔ ∃ k, (h.table r).HasKey k ∧ exportKey k = key) ∧
      ∀ key x, (key, x) ∈ entries ↔ ∃ v, IsLast (w.fields r) key v ∧ x = w.exportWithin levels v) ∧
    (∀ levels v path, path ≠ [] → ¬ At (w.exportWithin levels v) path .nil) ∧
    (∀ w' : View, w'.Shows h → ∀ levels v,
      (∀ n r, n < levels → h.Reaches v n (.table r) → (h.table r).NamesDiffer) →
      w.exportWithin levels v = w'.exportWithin levels v) ∧
    (∀ a b : Int64, exportKey (.int a) = exportKey (.int b) → a = b) ∧
    ∀ s t : ByteArray, s.IsValidUTF8 → t.IsValidUTF8 → exportKey (.string s) = exportKey (.string t) → s = t := by
  refine ⟨?_, fun levels v path => not_at_nil shows levels v, fun w' shows' => exportWithin_order shows shows',
    fun a b => exportKey_int_inj.1, fun s t valid valid' => (exportKey_string_inj valid valid').1⟩
  intro levels r entries object
  -- A table with the keys of an array would have become one.
  have other : ¬ ∃ n : Int64, 0 < n ∧ (h.table r).HasKeysTo n := by
    rintro ⟨n, positive, keys⟩
    obtain ⟨m, fits, rfl, -⟩ := exists_ofNat positive
    rw [exportWithin_array shows levels (Nat.succ_pos m) fits keys] at object
    cases object
  rw [exportWithin_object shows levels other] at object
  obtain rfl := ScriptValue.object.inj object
  refine ⟨ScriptValue.ascending_sortEntries _, fun key => ?_, fun key x => ?_⟩
  · rw [ScriptValue.mem_keys_sortEntries, List.map_map]
    exact mem_names shows
  · rw [ScriptValue.mem_sortEntries]
    exact ScriptValue.isLast_map _

/-! ## Two orders of one heap -/

/-- The view that traverses every table from its last entry to its first. -/
def reversed (w : View) : View := { w with entries := fun r => (w.entries r).reverse }

theorem Shows.reversed (shows : w.Shows h) : w.reversed.Shows h where
  entries r := by
    obtain ⟨distinct, mem_iff⟩ := shows.entries r
    refine ⟨?_, fun k v => List.mem_reverse.trans (mem_iff k v)⟩
    rw [View.reversed, List.map_reverse]
    exact List.nodup_reverse.2 distinct
  length := shows.length

/-- What holds of a value and of the values in every table of which it holds, holds of all that is reached. -/
theorem of_reaches (shows : w.Shows h) {P : Value → Prop} (inside : ∀ r, P (.table r) → ∀ e ∈ w.entries r, P e.2)
    {v u : Value} {n : Nat} (reaches : h.Reaches v n u) (first : P v) : P u := by
  induction reaches with
  | here v => exact first
  | @through r n k u has reaches ih =>
    exact ih (inside r first (k, h.rawGet r k) (((shows.entries r).mem_iff k _).2 ⟨has.1, rfl, has.2⟩))

theorem namesDiffer_of_nodup (shows : w.Shows h) {r : Nat} (nodup : ((w.fields r).map Prod.fst).Nodup) :
    (h.table r).NamesDiffer := by
  rw [map_fst_fields] at nodup
  intro k k' has has'
  exact List.inj_on_of_nodup_map nodup (((shows.entries r).mem_keys k).2 has) (((shows.entries r).mem_keys k').2 has')

/-- A table with items and a value under a text. -/
def withText (items : Array Value) (name : String) (value : Value) : Table :=
  (Table.ofItems items).pushEntry (.text name) value

theorem lawful_withText (items : Array Value) (name : String) (value : Value) : (withText items name value).Lawful :=
  (Table.lawful_bare (Nat.le_refl _) _ _).pushEntry (Table.isKey_string _) rfl Std.HashMap.getElem?_empty value

/-- A table that contains one that contains itself, both with the keys 2 and "a", and a table with the keys 1 and
"1", which have one name. -/
def sharingHeap : Heap :=
  .ofTables [withText #[.nil, .table 1] "a" (.bool true), withText #[.nil, .bool true] "a" (.table 1),
    withText #[.bool true] "1" (.bool false)]

/-- Where names differ, two orders of traversal give the same; where 1 and "1" are keys, each order gives the value
that it comes to last. -/
theorem exportWithin_table_object_orders :
    sharingHeap.view.exportWithin 3 (.table 0) = sharingHeap.view.reversed.exportWithin 3 (.table 0) ∧
      (∃ entries, sharingHeap.view.exportWithin 1 (.table 2) = .object entries ∧
        ("1", .boolean false) ∈ entries) ∧
      ∃ entries, sharingHeap.view.reversed.exportWithin 1 (.table 2) = .object entries ∧
        ("1", .boolean true) ∈ entries := by
  have shows : sharingHeap.view.Shows sharingHeap :=
    Heap.ofTables_shows (by simp [lawful_withText]) (by simp [Table.Fits, withText]; decide)
  -- What has a text as a key is no array.
  have other : ¬ ∃ n : Int64, 0 < n ∧ (sharingHeap.table 2).HasKeysTo n := by
    rintro ⟨n, -, keys⟩
    obtain ⟨i, -, -, same⟩ := (keys (.text "1")).1 (((shows.entries 2).mem_keys _).1 (by decide))
    cases same
  refine ⟨(exportWithin_table_object shows).2.2.1 _ shows.reversed 3 (.table 0) ?_, ?_, ?_⟩
  · intro n r _ reaches
    -- Only the first two tables are reached, and each has two names.
    have inside := of_reaches shows (P := fun v => v ∈ [.table 0, .table 1, .bool true]) ?_ reaches (by decide)
    · have nodup : ∀ r ∈ [0, 1], ((sharingHeap.view.fields r).map Prod.fst).Nodup := by
        decide +kernel
      exact namesDiffer_of_nodup shows (nodup r (by simpa using inside))
    · intro r first
      have values : ∀ r ∈ [0, 1], ∀ e ∈ sharingHeap.view.entries r, e.2 ∈ [.table 0, .table 1, .bool true] := by
        decide
      exact values r (by simpa using first)
  · have object := exportWithin_object shows 0 other
    exact ⟨_, object, (((exportWithin_table_object shows).1 0 2 _ object).2.2 "1" _).2
      ⟨.bool false, ⟨[("1", .bool true)], [], by decide +kernel, List.not_mem_nil⟩, rfl⟩⟩
  · have object := exportWithin_object shows.reversed 0 other
    exact ⟨_, object, (((exportWithin_table_object shows.reversed).1 0 2 _ object).2.2 "1" _).2
      ⟨.bool true, ⟨[("1", .bool false)], [], by decide +kernel, List.not_mem_nil⟩, rfl⟩⟩

end View

end VaultConsole.Lua
