import VaultConsole.Proofs.Banner
import VaultConsole.Proofs.Export.Arrays
import VaultConsole.Proofs.Export.Keys
import VaultConsole.Proofs.Machine.Hosted
import VaultConsole.Proofs.Yaml.Values

/-!
# Documents as tables

A plain document becomes a value of a script from which the document is read again: what is handed out of that
value is the image of the document (`makes_ofYaml`). By induction on the document: its tables are all new
(`Heap.Extends`), a table is left alone once it is filled, and what a value becomes depends on the tables that were
made for it only (`Heap.Pictures`). Tables are filled one item or entry at a time; where the memory of the session
is limited, it may run out on the way.
-/

namespace VaultConsole.Lua

/-! ## Tables that are filled in order -/

namespace Table

/-- A table that was made for a number of items and has got some of them. -/
def itemTable (n : Nat) (metatable? : Option Nat) (vs : List Value) : Table :=
  ⟨(vs ++ List.replicate (n - vs.length) Value.nil).toArray, n, #[], ∅, capacityFor 0, metatable?⟩

variable {n : Nat} {metatable? : Option Nat} {vs : List Value}

theorem itemTable_nil (n : Nat) (metatable? : Option Nat) :
    { withRoom n 0 with metatable? } = itemTable n metatable? [] := by
  simp [withRoom, itemTable]

/-- The next item goes to the next place. -/
theorem set_itemTable (room : vs.length < n) (fits : n < maxInteger) (v : Value) :
    (itemTable n metatable? vs).set (.int (Int64.ofNat (vs.length + 1))) v =
      itemTable n metatable? (vs ++ [v]) := by
  have size : (itemTable n metatable? vs).items.size = n := by
    simp only [itemTable, List.size_toArray, List.length_append, List.length_replicate]
    omega
  have place : (itemTable n metatable? vs).position? (.int (Int64.ofNat (vs.length + 1))) = some vs.length :=
    position?_ofNat (by rw [size]; exact room) (by rw [Fits, size]; exact fits)
  have left : n - vs.length = (n - (vs ++ [v]).length) + 1 := by
    rw [List.length_append, List.length_singleton]
    omega
  rw [set, place]
  simp only [itemTable]
  rw [left, List.replicate_succ]
  simp

/-- A table that has got all of its items is a sequence. -/
theorem isSequence_itemTable (vs : List Value) : (itemTable vs.length none vs).IsSequence vs := by
  refine ⟨?_, rfl, rfl, rfl⟩
  simp [itemTable]

theorem border_itemTable (solid : ∀ v ∈ vs, v.isNil = false) (metatable? : Option Nat) :
    (itemTable vs.length metatable? vs).border.1 = vs.length :=
  (isSequence_itemTable vs).border solid

theorem toList_itemTable (metatable? : Option Nat) (vs : List Value) :
    (itemTable vs.length metatable? vs).toList = itemEntries 0 vs := by
  rw [toList_eq]
  simp [itemTable]

theorem keys_itemEntries (solid : ∀ v ∈ vs, v.isNil = false) (i : Nat) : (itemEntries i vs).map Prod.fst =
    (List.range' i vs.length).map fun j => Value.int (Int64.ofNat (j + 1)) := by
  induction vs generalizing i with
  | nil => rfl
  | cons v vs ih =>
    rw [List.forall_mem_cons] at solid
    rw [itemEntries, solid.1, List.length_cons, List.range'_succ, List.map_cons, ← ih solid.2]
    rfl

/-- What a table gets that a value is put into under a new name. -/
def fieldOf (name : String) (v : Value) : List (String × Value) := if v.isNil then [] else [(name, v)]

theorem eq_of_mem_fieldOf {name name' : String} {v : Value} (there : name' ∈ (fieldOf name v).map Prod.fst) :
    name' = name := by
  rw [fieldOf] at there
  split at there
  · cases there
  · exact List.mem_singleton.1 there

/-- A value that is set under a new name is there, unless it is nil. -/
theorem IsRecord.setText_fieldOf {t : Table} {fields : List (String × Value)} {name : String}
    (record : t.IsRecord fields) (fresh : name ∉ fields.map Prod.fst) (v : Value) :
    (t.setText name v).IsRecord (fields ++ fieldOf name v) := by
  cases known : v.isNil with
  | false =>
    rw [fieldOf, known]
    exact record.setText fresh known
  | true =>
    have unknown : t.index.get? (.text name) = none := (record.index _).trans (findIdx?_eq_none fresh)
    have same : t.setText name v = t := by
      show t.set (.text name) v = t
      unfold set
      simp only [Value.text, position?] at unknown ⊢
      simp only [unknown, known, if_true]
    rw [same, fieldOf, known, if_pos rfl, List.append_nil]
    exact record

/-- The entries of a record are traversed in their order. -/
theorem IsRecord.toList {t : Table} {fields : List (String × Value)} (record : t.IsRecord fields) :
    t.toList = fields.map fun e => (Value.text e.1, e.2) := by
  rw [toList_eq, record.items, record.entries, List.filter_eq_self.2]
  · rfl
  · intro e member
    obtain ⟨f, there, rfl⟩ := List.mem_map.1 member
    simp [record.solid f there]

end Table

namespace View

variable {w : View} {r : Nat}

/-- A table with items becomes their array, and one without any an empty object. -/
theorem exportWithin_items {vs : List Value} (entries : w.entries r = Table.itemEntries 0 vs)
    (length : w.length r = vs.length) (solid : ∀ v ∈ vs, v.isNil = false) (fits : vs.length ≤ Table.maxInteger)
    (levels : Nat) : w.exportWithin (levels + 1) (.table r) =
      if vs.isEmpty then .object [] else .array (vs.map (w.exportWithin levels)) := by
  rw [exportWithin_table, entries, length, exportEntries, isSequence_map]
  cases vs with
  | nil => rfl
  | cons v vs =>
    -- The keys are the numbers from one on, so that the table is taken for an array.
    have keys : ((Table.itemEntries 0 (v :: vs)).map Prod.fst).Perm (itemKeys (v :: vs).length) := by
      rw [Table.keys_itemEntries solid, itemKeys, List.range_eq_range']
    have sequence := isSequence_of_perm (show 0 < (v :: vs).length from Nat.succ_pos _) fits keys
    have item : ∀ {i}, (inside : i < (v :: vs).length) → (v :: vs).getD i .nil = (v :: vs)[i] := by
      intro i inside
      rw [List.getD_eq_getElem?_getD, List.getElem?_eq_getElem inside, Option.getD_some]
    rw [if_pos sequence]
    simp only [List.isEmpty_cons, Bool.false_eq_true, if_false]
    have there : ∀ i, i < (v :: vs).length → (Value.int (Int64.ofNat (i + 1)),
        w.exportWithin levels ((v :: vs).getD i .nil)) ∈ (Table.itemEntries 0 (v :: vs)).map fun e =>
          (e.1, w.exportWithin levels e.2) := by
      intro i inside
      refine List.mem_map.2 ⟨(.int (Int64.ofNat (i + 1)), (v :: vs).getD i .nil), ?_, rfl⟩
      refine (Table.mem_itemEntries 0).2 ⟨i, ?_, ?_, by rw [Nat.zero_add]⟩
      · rw [item inside, List.getElem?_eq_getElem inside]
      · intro absent
        rw [item inside] at absent
        have present := solid _ (List.getElem_mem inside)
        rw [absent] at present
        cases present
    rw [sequenceItems_eq fits (by rw [List.map_map]; exact keys) there]
    congr 1
    refine List.ext_getElem (by simp) fun i inside inside' => ?_
    rw [List.length_map] at inside'
    rw [List.getElem_map, List.getElem_range, List.getElem_map, item inside']

/-- A table with named values becomes the object of them. -/
theorem exportWithin_record {fields : List (String × Value)}
    (entries : w.entries r = fields.map fun e => (Value.text e.1, e.2)) (levels : Nat) :
    w.exportWithin (levels + 1) (.table r) =
      .object (ScriptValue.sortEntries (fields.map fun e => (e.1, w.exportWithin levels e.2))) := by
  have named : ∀ n, isSequence n (fields.map fun e => (Value.text e.1, e.2)) = false := by
    intro n
    cases fields with
    | nil => cases n <;> simp [isSequence]
    | cons e fields => simp [isSequence, isItemKey, Value.text]
  rw [exportWithin_table, entries, exportEntries, isSequence_map, named]
  simp only [Bool.false_eq_true, if_false, List.map_map]
  congr 2
  refine List.map_congr_left fun e _ => ?_
  exact Prod.ext (Text.Utf8.lossy_toUTF8 e.1) rfl

end View

/-! ## Heaps that grow by tables -/

namespace Heap

/-- A later heap in which the tables are as they were, but for one that may have been filled; other tables are
new, and nothing was printed. -/
structure ExtendsBut (r : Nat) (h h' : Heap) : Prop where
  size : h.tables.size ≤ h'.tables.size
  table : ∀ r' < h.tables.size, r' ≠ r → h'.table r' = h.table r'
  printed : h'.printed = h.printed

/-- A later heap in which the tables are as they were. -/
structure Extends (h h' : Heap) : Prop where
  size : h.tables.size ≤ h'.tables.size
  table : ∀ r < h.tables.size, h'.table r = h.table r
  printed : h'.printed = h.printed

variable {h h' h'' : Heap} {r : Nat}

theorem Extends.refl (h : Heap) : h.Extends h := ⟨Nat.le_refl _, fun _ _ => rfl, rfl⟩

theorem ExtendsBut.refl (r : Nat) (h : Heap) : ExtendsBut r h h := ⟨Nat.le_refl _, fun _ _ _ => rfl, rfl⟩

theorem Extends.but (extends_ : h.Extends h') (r : Nat) : ExtendsBut r h h' :=
  ⟨extends_.size, fun r' inside _ => extends_.table r' inside, extends_.printed⟩

theorem ExtendsBut.trans (a : ExtendsBut r h h') (b : ExtendsBut r h' h'') : ExtendsBut r h h'' :=
  ⟨Nat.le_trans a.size b.size,
    fun r' inside other => (b.table r' (Nat.lt_of_lt_of_le inside a.size) other).trans (a.table r' inside other),
    b.printed.trans a.printed⟩

theorem extendsBut_rawSet (r : Nat) (h : Heap) (k v : Value) : ExtendsBut r h (h.rawSet r k v) := by
  refine ⟨?_, fun r' _ other => ?_, rfl⟩
  · show h.tables.size ≤ (h.tables.modify r _).size
    exact Nat.le_of_eq Array.size_modify.symm
  · show (h.tables.modify r _).getD r' default = h.tables.getD r' default
    rw [Array.getD_eq_getD_getElem?, Array.getElem?_modify, if_neg fun same => other same.symm,
      Array.getD_eq_getD_getElem?]

theorem table_rawSet (inside : r < h.tables.size) (k v : Value) :
    (h.rawSet r k v).table r = (h.table r).set k v := by
  show (h.tables.modify r _).getD r default = (h.tables.getD r default).set k v
  rw [Array.getD_eq_getD_getElem?, Array.getElem?_modify, if_pos rfl, Array.getD_eq_getD_getElem?,
    Array.getElem?_eq_getElem inside]
  rfl

/-- A heap with a new table that is filled afterwards. -/
theorem extends_of_newTable {t : Table} (later : ExtendsBut h.tables.size (h.newTable t).1 h') :
    h.Extends h' := by
  have size := h.size_newTable t
  refine ⟨?_, fun r inside => ?_, later.printed⟩
  · have grown := later.size
    omega
  · rw [later.table r (by omega) (by omega), table_newTable_of_lt h t inside]

/-- Whether a value becomes another one that nests so deeply, whatever else a heap has than the tables from a
reference on. -/
def Pictures (h : Heap) (first : Nat) (n : Nat) (v : Value) (x : ScriptValue) : Prop :=
  ∀ (h' : Heap) levels, (∀ r, first ≤ r → r < h.tables.size → h'.table r = h.table r) → n ≤ levels →
    h'.view.exportWithin levels v = x

variable {first n n' : Nat} {v : Value} {x : ScriptValue}

/-- What has become of a value stays while only earlier tables are filled. -/
theorem Pictures.of_extendsBut (pictures : h.Pictures first n v x) (later : ExtendsBut r h h')
    (before : r < first) (deeper : n ≤ n') {first' : Nat} (from' : first' ≤ first) :
    h'.Pictures first' n' v x := by
  intro h'' levels same deep
  refine pictures h'' levels (fun r' beyond inside => ?_) (Nat.le_trans deeper deep)
  rw [same r' (Nat.le_trans from' beyond) (Nat.lt_of_lt_of_le inside later.size),
    later.table r' inside (by omega)]

end Heap

/-! ## Actions that come to an end -/

/-- Whether an action comes to an end as it should. Where memory is limited, it may run out instead. -/
def Action.Makes {α : Type} (a : Action α) (h : Heap) (P : α → Heap → Prop) : Prop :=
  (∃ x h', a.run h = .done x h' ∧ P x h') ∨ ∃ h', a.run h = .fail .memory h' ∧ h.limit? ≠ none

namespace Action

variable {α β : Type} {h : Heap} {P : α → Heap → Prop} {Q : β → Heap → Prop}

theorem makes_of_done {a : Action α} {x : α} {h' : Heap} (done : a.run h = .done x h') (right : P x h') :
    a.Makes h P := .inl ⟨x, h', done, right⟩

theorem makes_pure {x : α} (right : P x h) : (pure x : Action α).Makes h P := makes_of_done rfl right

theorem Makes.bind {a : Action α} {f : α → Action β} (first : a.Makes h P)
    (later : ∀ x h', P x h' → (f x).Makes h' Q) : (a >>= f).Makes h Q := by
  obtain ⟨x, h', done, right⟩ | ⟨h', short, limited⟩ := first
  · have grows := a.grows h
    rw [done] at grows
    obtain ⟨y, h'', done', right'⟩ | ⟨h'', short, limited⟩ := later x h' right
    · exact makes_of_done ((run_bind_of_done done f).trans done') right'
    · exact .inr ⟨h'', (run_bind_of_done done f).trans short, grows.begins.limit ▸ limited⟩
  · refine .inr ⟨h', ?_, limited⟩
    have split : (a >>= f).run h = (a.run h).bind fun x h => (f x).run h := rfl
    rw [split, short]
    rfl

theorem Makes.mono {a : Action α} {P' : α → Heap → Prop} (makes : a.Makes h P)
    (weaker : ∀ x h', P x h' → P' x h') : a.Makes h P' :=
  makes.imp (fun ⟨x, h', done, right⟩ => ⟨x, h', done, weaker x h' right⟩) id

end Action

/-- A value under an integer or a text is put into a table. -/
theorem Metamethod.makes_rawSet (r : Nat) {k v : Value} (h : Heap)
    (plain : (∃ n, k = .int n) ∨ ∃ s, k = .text s) :
    (Metamethod.rawSet r k v).Makes h fun _ h' => h' = h.rawSet r k v := by
  have run : (Metamethod.rawSet r k v).run h =
      if (h.rawSet r k v).isExhausted then .fail .memory (h.rawSet r k v) else .done () (h.rawSet r k v) := by
    obtain ⟨n, rfl⟩ | ⟨s, rfl⟩ := plain
    · rfl
    · rfl
  cases short : (h.rawSet r k v).isExhausted with
  | true =>
    refine .inr ⟨h.rawSet r k v, ?_, Heap.limited_of_isExhausted (h.rawSet r k v) short⟩
    rw [run, short]
    rfl
  | false =>
    refine Action.makes_of_done (x := ()) ?_ rfl
    rw [run, short]
    rfl

/-! ## Documents -/

namespace Library

open Yaml (IsPlain PlainItems PlainEntries ConsistentItems ConsistentEntries KeysDiffer image images imageEntries
  nestingOfItems nestingOfEntries keyText)

/-- What a value is that a document has become. -/
structure Renders (h : Heap) (y : Yaml) (v : Value) (h' : Heap) : Prop where
  extends_ : h.Extends h'
  pictures : h'.Pictures h.tables.size y.nesting v y.image
  isNil : v.isNil = y.isNull

/-- Values that need no table. -/
theorem renders_simple {h : Heap} {y : Yaml} {v : Value}
    (pictures : ∀ (h' : Heap) levels, h'.view.exportWithin levels v = y.image) (isNil : v.isNil = y.isNull) :
    Renders h y v h :=
  ⟨.refl h, fun h' levels _ _ => pictures h' levels, isNil⟩

/-- The part of an integer that 64 bits hold. -/
theorem renders_int {h : Heap} {n : Int} (above : -0x8000000000000000 ≤ n) :
    Renders h (.int n) (if n < 0x8000000000000000 then .int (Int64.ofInt n)
      else .float ((UInt64.ofNat n.toNat).toFloat.toBits)) h := by
  by_cases fits : n < 0x8000000000000000
  · refine renders_simple (fun h' levels => ?_) (by rw [if_pos fits]; rfl)
    have back : (Int64.ofInt n).toInt = n := Int64.toInt_ofInt_of_le above (by omega)
    rw [if_pos fits, Yaml.image, if_pos fits, View.exportWithin, back]
  · refine renders_simple (fun h' levels => ?_) (by rw [if_neg fits]; rfl)
    rw [if_neg fits, Yaml.image, if_neg fits, View.exportWithin]

/-- What the items of a sequence have become in a table that had got some items before. -/
structure RendersItems (h : Heap) (r : Nat) (table : List Value → Table) (items : List Yaml) (h' : Heap) :
    Prop where
  extends_ : Heap.ExtendsBut r h h'
  filled : ∃ vs, h'.table r = table vs ∧ (∀ v ∈ vs, v.isNil = false) ∧
    List.Forall₂ (h'.Pictures (r + 1) (nestingOfItems items)) vs (images items)

/-- What the entries of a mapping have become in a table that had got some entries before. -/
structure RendersEntries (h : Heap) (r : Nat) (fields : List (String × Value)) (entries : List (Yaml × Yaml))
    (h' : Heap) : Prop where
  extends_ : Heap.ExtendsBut r h h'
  filled : ∃ more, (h'.table r).IsRecord (fields ++ more) ∧
    List.Forall₂ (fun e x => e.1 = x.1 ∧ h'.Pictures (r + 1) (nestingOfEntries entries) e.2 x.2) more
      (imageEntries entries)

theorem length_images (items : List Yaml) : (images items).length = items.length := by
  induction items with
  | nil => rfl
  | cons y ys ih => rw [images, List.length_cons, List.length_cons, ih]

/-- A new table that has got all items of a sequence. -/
theorem renders_sequence {h h' : Heap} {items : List Yaml} {metatable? : Option Nat} {t : Table}
    (small : items.length ≤ Table.maxInteger)
    (filled : RendersItems (h.newTable t).1 h.tables.size (Table.itemTable items.length metatable?) items h') :
    Renders h (.sequence items) (.table h.tables.size) h' := by
  obtain ⟨later, vs, here, solid, made⟩ := filled
  have size := h.size_newTable t
  have grown := later.size
  have count : vs.length = items.length := made.length_eq.trans (length_images items)
  refine ⟨Heap.extends_of_newTable later, fun h'' levels same deep => ?_, rfl⟩
  -- Later heaps keep the table, as nothing is put into it any more.
  have there : h''.table h.tables.size = Table.itemTable vs.length metatable? vs := by
    rw [same _ (Nat.le_refl _) (by omega), here, count]
  have entries : h''.view.entries h.tables.size = Table.itemEntries 0 vs := by
    show (h''.table h.tables.size).toList = _
    rw [there, Table.toList_itemTable]
  have length : h''.view.length h.tables.size = vs.length := by
    show (h''.table h.tables.size).border.1 = _
    rw [there, Table.border_itemTable solid]
  obtain ⟨levels, rfl⟩ : ∃ n, levels = n + 1 := Nat.exists_eq_succ_of_ne_zero (by rintro rfl; cases deep)
  have items' : vs.map (h''.view.exportWithin levels) = images items := by
    rw [← List.forall₂_eq_eq_eq, List.forall₂_map_left_iff]
    refine made.imp fun v x pictures => pictures h'' levels (fun r beyond inside => ?_) (Nat.le_of_succ_le_succ deep)
    exact same r (by omega) inside
  have empty : vs.isEmpty = items.isEmpty := by
    rw [Bool.eq_iff_iff, List.isEmpty_iff_length_eq_zero, List.isEmpty_iff_length_eq_zero, count]
  rw [View.exportWithin_items entries length solid (count ▸ small), items', image, empty]

/-- A new table that has got all entries of a mapping. -/
theorem renders_mapping {h h' : Heap} {entries : List (Yaml × Yaml)} {t : Table}
    (filled : RendersEntries (h.newTable t).1 h.tables.size [] entries h') :
    Renders h (.mapping entries) (.table h.tables.size) h' := by
  obtain ⟨later, fields, record, made⟩ := filled
  have size := h.size_newTable t
  have grown := later.size
  refine ⟨Heap.extends_of_newTable later, fun h'' levels same deep => ?_, rfl⟩
  have there : (h''.table h.tables.size).IsRecord fields := by
    rw [same _ (Nat.le_refl _) (by omega)]
    exact record
  obtain ⟨levels, rfl⟩ : ∃ n, levels = n + 1 := Nat.exists_eq_succ_of_ne_zero (by rintro rfl; cases deep)
  have entries' : fields.map (fun e => (e.1, h''.view.exportWithin levels e.2)) = imageEntries entries := by
    rw [← List.forall₂_eq_eq_eq, List.forall₂_map_left_iff]
    refine made.imp fun e x ⟨name, pictures⟩ => Prod.ext name ?_
    refine pictures h'' levels (fun r beyond inside => ?_) (Nat.le_of_succ_le_succ deep)
    exact same r (by omega) inside
  rw [View.exportWithin_record there.toList, entries', image]

/-- One more item, and those after it. -/
theorem renders_item {h h₁ h₂ : Heap} {r : Nat} {table : List Value → Table} {k v : Value} {y : Yaml}
    {ys : List Yaml} (inside : r < h.tables.size) (solid : y.isNull = false) (item : Renders h y v h₁)
    (later : RendersItems (h₁.rawSet r k v) r (fun vs => table (v :: vs)) ys h₂) :
    RendersItems h r table (y :: ys) h₂ := by
  obtain ⟨rest, vs, filled, others, made⟩ := later
  have after : Heap.ExtendsBut r h₁ h₂ := (Heap.extendsBut_rawSet r h₁ k v).trans rest
  refine ⟨(item.extends_.but r).trans after, v :: vs, filled, ?_, .cons ?_ (made.imp fun w x pictures => ?_)⟩
  · exact List.forall_mem_cons.2 ⟨item.isNil.trans solid, others⟩
  · exact item.pictures.of_extendsBut after inside (Nat.le_max_left _ _) inside
  · exact fun h'' levels same deep => pictures h'' levels same (Nat.le_trans (Nat.le_max_right _ _) deep)

/-- One more entry, and those after it. -/
theorem renders_entry {h h₁ h₂ : Heap} {r : Nat} {fields : List (String × Value)} {name : String} {k v : Value}
    {y : Yaml} {es : List (Yaml × Yaml)} (inside : r < h.tables.size) (item : Renders h y v h₁)
    (later : RendersEntries (h₁.rawSet r k v) r (fields ++ Table.fieldOf name v) es h₂) :
    RendersEntries h r fields ((.string name, y) :: es) h₂ := by
  obtain ⟨rest, more, filled, made⟩ := later
  have after : Heap.ExtendsBut r h₁ h₂ := (Heap.extendsBut_rawSet r h₁ k v).trans rest
  have others : List.Forall₂ (fun e x => e.1 = x.1 ∧ h₂.Pictures (r + 1)
      (nestingOfEntries ((.string name, y) :: es)) e.2 x.2) more (imageEntries es) :=
    made.imp fun e x ⟨name, pictures⟩ => ⟨name, fun h'' levels same deep =>
      pictures h'' levels same (Nat.le_trans (Nat.le_max_right _ _) deep)⟩
  refine ⟨(item.extends_.but r).trans after, Table.fieldOf name v ++ more, ?_, ?_⟩
  · rwa [← List.append_assoc]
  · rw [imageEntries, Table.fieldOf, item.isNil]
    cases y.isNull with
    | true => exact others
    | false => exact .cons ⟨rfl, item.pictures.of_extendsBut after inside (Nat.le_max_left _ _) inside⟩ others

mutual

/-- **A plain document becomes a value that is handed out as the image of the document**, or memory runs out. -/
theorem makes_ofYaml : (y : Yaml) → y.IsPlain → y.Consistent → (h : Heap) →
    (ofYaml y).Makes h (Renders h y)
  | .null, _, _, h => Action.makes_pure (renders_simple (fun h' levels => by cases levels <;> rfl) rfl)
  | .bool b, _, _, h => Action.makes_pure (renders_simple (fun h' levels => by cases levels <;> rfl) rfl)
  | .int n, _, above, h => Action.makes_pure (renders_int above)
  | .float b, _, _, h => Action.makes_pure (renders_simple (fun h' levels => by cases levels <;> rfl) rfl)
  | .string s, _, _, h => Action.makes_pure (renders_simple (fun h' levels => by
      rw [Value.text, View.exportWithin, Text.Utf8.lossy_toUTF8, image]) rfl)
  | .sequence items, ⟨small, plain⟩, consistent, h => by
    let t : Table := { Table.withRoom items.length 0 with metatable? := some h.sequenceMeta }
    have begun : (h.newTable t).1.table h.tables.size = Table.itemTable items.length (some h.sequenceMeta) [] := by
      rw [Heap.table_newTable]
      exact Table.itemTable_nil _ _
    have inside := h.lt_size_newTable t
    have filled := makes_putItems items plain consistent inside small begun (Nat.zero_add _)
    refine Action.Makes.bind (P := fun r h' => r = h.tables.size ∧ h' = (h.newTable t).1)
      (Action.makes_of_done rfl ⟨rfl, rfl⟩) ?_
    rintro r h' ⟨rfl, rfl⟩
    exact filled.bind fun _ h' filled => Action.makes_pure (renders_sequence (Nat.le_of_lt small) filled)
  | .mapping entries, plain, ⟨differ, consistent⟩, h => by
    let t := Table.withRoom 0 entries.length
    have begun : ((h.newTable t).1.table h.tables.size).IsRecord [] := by
      rw [Heap.table_newTable]
      exact Table.isRecord_nil _ _
    have inside := h.lt_size_newTable t
    have filled := makes_putEntries entries plain differ consistent inside begun (by simp)
    refine Action.Makes.bind (P := fun r h' => r = h.tables.size ∧ h' = (h.newTable t).1)
      (Action.makes_of_done rfl ⟨rfl, rfl⟩) ?_
    rintro r h' ⟨rfl, rfl⟩
    exact filled.bind fun _ h' filled => Action.makes_pure (renders_mapping filled)
  | .tagged _ _, plain, _, _ => plain.elim

theorem makes_putItems : (ys : List Yaml) → PlainItems ys → ConsistentItems ys → {h : Heap} →
    {r n : Nat} → {metatable? : Option Nat} → {done : List Value} → r < h.tables.size → n < Table.maxInteger →
    h.table r = Table.itemTable n metatable? done → done.length + ys.length = n →
    (putItems r (done.length + 1) ys).Makes h fun _ =>
      RendersItems h r (fun vs => Table.itemTable n metatable? (done ++ vs)) ys
  | [], _, _, h, r, n, metatable?, done, inside, small, there, room =>
    Action.makes_pure ⟨.refl r h, [], by rw [there, List.append_nil], nofun, .nil⟩
  | y :: ys, ⟨solid, plain, plains⟩, ⟨consistent, consistents⟩, h, r, n, metatable?, done, inside, small, there,
      room => by
    rw [List.length_cons] at room
    refine (makes_ofYaml y plain consistent h).bind fun v h₁ item => ?_
    refine (Metamethod.makes_rawSet r h₁ (.inl ⟨_, rfl⟩)).bind fun _ h₂ put => ?_
    subst put
    have inside₁ : r < h₁.tables.size := Nat.lt_of_lt_of_le inside item.extends_.size
    have inside₂ := Nat.lt_of_lt_of_le inside₁ (Heap.extendsBut_rawSet r h₁ (Value.ofNat (done.length + 1)) v).size
    -- Making the item has left the table as it was; now the item is at its end.
    have put : (h₁.rawSet r (Value.ofNat (done.length + 1)) v).table r =
        Table.itemTable n metatable? (done ++ [v]) := by
      rw [Heap.table_rawSet inside₁, item.extends_.table r inside, there]
      exact Table.set_itemTable (by omega) small v
    have rest := makes_putItems ys plains consistents inside₂ small put (by
      rw [List.length_append, List.length_singleton]
      omega)
    simp only [List.length_append, List.length_singleton, List.append_assoc, List.singleton_append] at rest
    exact rest.mono fun _ h₂ later => renders_item inside solid item later

theorem makes_putEntries : (es : List (Yaml × Yaml)) → PlainEntries es → KeysDiffer es → ConsistentEntries es →
    {h : Heap} → {r : Nat} → {fields : List (String × Value)} → r < h.tables.size → (h.table r).IsRecord fields →
    (∀ e ∈ es, keyText e.1 ∉ fields.map Prod.fst) →
    (putEntries r es).Makes h fun _ => RendersEntries h r fields es
  | [], _, _, _, h, r, fields, inside, record, fresh =>
    Action.makes_pure ⟨.refl r h, [], by rwa [List.append_nil], .nil⟩
  | (_, y) :: es, ⟨⟨name, rfl⟩, plain, plains⟩, differ, ⟨consistent, consistents⟩, h, r, fields, inside, record,
      fresh => by
    obtain ⟨unlike, differ⟩ := List.pairwise_cons.1 differ
    obtain ⟨fresh, others⟩ := List.forall_mem_cons.1 fresh
    refine Action.Makes.bind (P := fun k h' => k = .text name ∧ h' = h) (Action.makes_of_done rfl ⟨rfl, rfl⟩) ?_
    rintro k h' ⟨rfl, rfl⟩
    refine (makes_ofYaml y plain consistent h').bind fun v h₁ item => ?_
    refine (Metamethod.makes_rawSet r h₁ (.inr ⟨_, rfl⟩)).bind fun _ h₂ put => ?_
    subst put
    have inside₁ : r < h₁.tables.size := Nat.lt_of_lt_of_le inside item.extends_.size
    have inside₂ := Nat.lt_of_lt_of_le inside₁ (Heap.extendsBut_rawSet r h₁ (.text name) v).size
    -- Making the value has left the record as it was; now it has one more name.
    have put : ((h₁.rawSet r (.text name) v).table r).IsRecord (fields ++ Table.fieldOf name v) := by
      rw [Heap.table_rawSet inside₁, item.extends_.table r inside]
      exact record.setText_fieldOf fresh v
    have rest := makes_putEntries es plains differ consistents inside₂ put fun e member known => by
      -- Later names are neither among the old ones nor the new one, as the keys differ.
      obtain ⟨named, _⟩ := Yaml.plainEntries_iff.1 plains e member
      rw [List.map_append, List.mem_append] at known
      exact known.elim (others e member) fun same =>
        Yaml.keyText_ne named (unlike e member) (Table.eq_of_mem_fieldOf same)
    exact rest.mono fun _ h₂ later => renders_entry inside item later

end

/-- Running out of memory is no fault of the host function. -/
theorem makes_hosted {α : Type} {a : Action α} {h : Heap} {P : α → Heap → Prop} (makes : a.Makes h P) :
    (hosted a).Makes h P := by
  refine makes.imp ?_ ?_
  · rintro ⟨x, h', done, right⟩
    refine ⟨x, h', ?_, right⟩
    simp only [hosted, done]
  · rintro ⟨h', short, limited⟩
    refine ⟨h', ?_, limited⟩
    simp only [hosted, short]

/-- **A text in YAML becomes a value that is handed out as the image of its document.** -/
theorem makes_parseYaml {text : String} {y : Yaml} (read : Yaml.read text = .ok y) (plain : y.IsPlain) (h : Heap) :
    (host .parseYaml [.text text]).Makes h fun vs h' => ∃ v, vs = [v] ∧ Renders h y v h' := by
  have got : (textArgument [.text text]).run h = .done text h := by
    rw [textArgument, show Args.get [.text text] 1 = Value.text text from rfl, textOf_text]
    rfl
  have given : (orFault (Yaml.read text)).run h = .done y h := by rw [read]; rfl
  have rendered := makes_hosted (makes_ofYaml y plain (Yaml.read_consistent read) h)
  refine Action.Makes.bind (P := fun s h' => s = text ∧ h' = h) (Action.makes_of_done got ⟨rfl, rfl⟩) ?_
  rintro s h' ⟨rfl, rfl⟩
  refine Action.Makes.bind (P := fun z h'' => z = y ∧ h'' = h') (Action.makes_of_done given ⟨rfl, rfl⟩) ?_
  rintro z h'' ⟨rfl, rfl⟩
  exact rendered.bind fun v h' renders => Action.makes_pure ⟨v, rfl, renders⟩

end Library

end VaultConsole.Lua
