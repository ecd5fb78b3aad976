import VaultConsole.Lua.Library.Globals

/-!
# Tables of named values and sequences

A table that is filled under texts keeps its values as entries in the order in which they came, also where it
chooses its array anew, since only integers count for that. `IsRecord` says of a table which names and values
it consists of, and `IsRecord.get` what it answers then: a name has its value, and there is nothing else.
`IsSequence` says the same of a table that is made for the keys 1, 2, …
-/

namespace VaultConsole.Lua

namespace Table

/-- Different texts are different keys. -/
theorem text_inj {a b : String} : Value.text a = Value.text b ↔ a = b := by
  constructor
  · intro same
    exact String.toByteArray_inj.1 (Value.string.inj same)
  · intro same
    rw [same]

/-- The value that a key has among named values; nil if it is none of the names. -/
def field (fields : List (String × Value)) (key : Value) : Value :=
  ((fields.find? fun e => Value.text e.1 == key).map Prod.snd).getD .nil

/-- A table that consists of named values. -/
structure IsRecord (t : Table) (fields : List (String × Value)) : Prop where
  items : t.items = #[]
  entries : t.entries.toList = fields.map fun e => (Value.text e.1, e.2)
  index : ∀ key, t.index.get? key = fields.findIdx? fun e => Value.text e.1 == key
  distinct : (fields.map Prod.fst).Nodup
  solid : ∀ e ∈ fields, e.2.isNil = false
  bare : t.metatable? = none

variable {t : Table} {fields more : List (String × Value)} {name : String} {value : Value}

theorem isRecord_nil (limit capacity : Nat) : IsRecord ⟨#[], limit, #[], ∅, capacity, none⟩ [] where
  items := rfl
  entries := rfl
  index _ := Std.HashMap.getElem?_empty
  distinct := .nil
  solid := nofun
  bare := rfl

/-! ## Filling a table -/

/-- A text that is no name is not found. -/
theorem findIdx?_eq_none (fresh : name ∉ fields.map Prod.fst) :
    (fields.findIdx? fun e => Value.text e.1 == Value.text name) = none := by
  rw [List.findIdx?_eq_none_iff]
  intro e there
  rw [beq_eq_false_iff_ne, ne_eq, text_inj]
  rintro rfl
  exact fresh (List.mem_map_of_mem there)

/-- A value under a new name goes to the end. -/
theorem IsRecord.pushEntry (record : t.IsRecord fields) (fresh : name ∉ fields.map Prod.fst)
    (solid : value.isNil = false) : (t.pushEntry (.text name) value).IsRecord (fields ++ [(name, value)]) := by
  obtain ⟨items, limit, entries, index, capacity, metatable?⟩ := t
  have size : entries.size = fields.length := by
    rw [← Array.length_toList, record.entries, List.length_map]
  refine ⟨record.items, ?_, fun key => ?_, ?_, ?_, record.bare⟩
  · show (entries.push _).toList = _
    rw [Array.toList_push, record.entries, List.map_append]
    rfl
  · show (index.insert (.text name) entries.size)[key]? = _
    rw [Std.HashMap.getElem?_insert, List.findIdx?_append, List.findIdx?_singleton]
    -- The index leads a new name to the last place, and every other key where it led.
    by_cases same : Value.text name = key
    · subst same
      rw [findIdx?_eq_none fresh, size]
      simp
    · rw [if_neg (fun equal => same (eq_of_beq equal)), if_neg (fun equal => same (eq_of_beq equal))]
      have kept : index[key]? = _ := record.index key
      rw [kept]
      cases fields.findIdx? fun e => Value.text e.1 == key with
      | none => rfl
      | some i => rfl
  · rw [List.map_append, List.nodup_append]
    refine ⟨record.distinct, by simp, ?_⟩
    rintro p there q last rfl
    obtain rfl : p = name := List.mem_singleton.1 last
    exact fresh there
  · intro e there
    obtain there | there := List.mem_append.1 there
    · exact record.solid e there
    · rw [List.mem_singleton.1 there]
      exact solid

/-- A value under a new name has no place yet, so it is put at the end. -/
theorem IsRecord.place (record : t.IsRecord fields) (fresh : name ∉ fields.map Prod.fst)
    (solid : value.isNil = false) : (t.place (.text name) value).IsRecord (fields ++ [(name, value)]) := by
  have unknown : t.index.get? (.text name) = none := (record.index _).trans (findIdx?_eq_none fresh)
  have placed : t.place (.text name) value = t.pushEntry (.text name) value := by
    unfold Table.place
    simp only [Value.text, position?] at unknown ⊢
    simp only [unknown]
  rw [placed]
  exact record.pushEntry fresh solid

/-- Values are all there in the end if each is put under a new name. -/
theorem IsRecord.foldl {put : Table → String → Value → Table}
    (each : ∀ {t fields name value}, t.IsRecord fields → name ∉ fields.map Prod.fst → value.isNil = false →
      (put t name value).IsRecord (fields ++ [(name, value)]))
    (record : t.IsRecord fields) (distinct : ((fields ++ more).map Prod.fst).Nodup)
    (solid : ∀ e ∈ more, e.2.isNil = false) :
    (more.foldl (fun t e => put t e.1 e.2) t).IsRecord (fields ++ more) := by
  -- Induction on the values to come; those that are in the table move to the others.
  induction more generalizing t fields with
  | nil =>
    rw [List.append_nil]
    exact record
  | cons e more ih =>
    have fresh : e.1 ∉ fields.map Prod.fst := by
      rw [List.map_append, List.nodup_append] at distinct
      exact fun there => distinct.2.2 _ there _ List.mem_cons_self rfl
    have next := each record fresh (solid e List.mem_cons_self)
    rw [List.append_cons] at distinct ⊢
    exact ih next distinct fun e' there => solid e' (List.mem_cons_of_mem _ there)

/-- Entries that are put one after the other into a table without items are all kept. -/
theorem IsRecord.foldl_place (record : t.IsRecord fields) (distinct : ((fields ++ more).map Prod.fst).Nodup)
    (solid : ∀ e ∈ more, e.2.isNil = false) :
    ((more.map fun e => (Value.text e.1, e.2)).foldl (fun t (k, v) => if v.isNil then t else t.place k v)
      t).IsRecord (fields ++ more) := by
  rw [List.foldl_map]
  refine @IsRecord.foldl t fields more (fun t name v => if v.isNil then t else t.place (.text name) v) ?_
    record distinct solid
  intro t fields name value record fresh solid
  rw [solid]
  exact record.place fresh solid

/-- The counts of the keys of entries by size, and the number of the entries. -/
def countEntries (entries : Array (Value × Value)) : Array Nat × Nat :=
  entries.foldl (fun (counts, live) (k, v) =>
    if v.isNil then (counts, live) else (countKey counts k, live + 1)) (Array.replicate 65 0, 0)

/-- Names do not count for the size of the array. -/
theorem IsRecord.countEntries (record : t.IsRecord fields) :
    (countEntries t.entries).1 = Array.replicate 65 0 := by
  have uncounted : ∀ counted : Array Nat × Nat, ((fields.map fun e => (Value.text e.1, e.2)).foldl
      (fun (counts, live) (k, v) => if v.isNil then (counts, live) else (countKey counts k, live + 1))
      counted).1 = counted.1 := by
    clear record
    induction fields with
    | nil => exact fun _ => rfl
    | cons e fields ih =>
      rintro ⟨counts, live⟩
      rw [List.map_cons, List.foldl_cons, ih]
      simp only
      split
      · rfl
      · rfl
  rw [Table.countEntries, ← Array.foldl_toList, record.entries]
  exact uncounted _

/-- A table of named values stays what it is where it chooses its array anew. -/
theorem IsRecord.rehash (record : t.IsRecord fields) (name : String) :
    (t.rehash (.text name)).IsRecord fields := by
  have uncounted := record.countEntries
  obtain ⟨items, limit, entries, index, capacity, metatable?⟩ := t
  obtain rfl : items = #[] := record.items
  obtain rfl : metatable? = none := record.bare
  -- Without keys to count, no size of the array is better than none.
  have chosen : ∀ counts : Array Nat, counts = Array.replicate 65 0 →
      bestSize counts (counts.foldl (· + ·) 0) 64 0 0 (0, 0) = (0, 0) := by
    rintro counts rfl
    rfl
  have rehashed : Table.rehash ⟨#[], limit, entries, index, capacity, none⟩ (.text name) =
      let counted := Table.countEntries entries
      let best := bestSize counted.1 (counted.1.foldl (· + ·) 0) 64 0 0 (0, 0)
      resize ⟨#[], limit, entries, index, capacity, none⟩ best.1 (0 + counted.2 + 1 - best.2) := rfl
  have filled : ∀ room, (resize ⟨#[], limit, entries, index, capacity, none⟩ 0 room).IsRecord fields := by
    intro room
    have placed :=
      @IsRecord.foldl_place _ [] fields (isRecord_nil 0 (capacityFor room)) record.distinct record.solid
    rw [← record.entries, Array.foldl_toList] at placed
    exact placed
  rw [rehashed]
  simp only [chosen _ uncounted]
  exact filled _

/-- A value is set under a new name, whether there is room for it or not. -/
theorem IsRecord.setText (record : t.IsRecord fields) (fresh : name ∉ fields.map Prod.fst)
    (solid : value.isNil = false) : (t.setText name value).IsRecord (fields ++ [(name, value)]) := by
  have unknown : t.index.get? (.text name) = none := (record.index _).trans (findIdx?_eq_none fresh)
  have set : t.setText name value =
      if t.entries.size < t.capacity then t.pushEntry (.text name) value
      else (t.rehash (.text name)).place (.text name) value := by
    show t.set (.text name) value = _
    unfold Table.set
    simp only [Value.text, position?] at unknown ⊢
    simp only [unknown, solid]
    rfl
  rw [set]
  split
  · exact record.pushEntry fresh solid
  · exact (record.rehash name).place fresh solid

/-- A value under a name that is there takes the place of the one before. -/
theorem IsRecord.overwrite (record : t.IsRecord fields) {i : Nat} (inside : i < fields.length)
    (solid : value.isNil = false) :
    (t.setText fields[i].1 value).IsRecord (fields.set i (fields[i].1, value)) := by
  have found : t.index.get? (.text fields[i].1) = some i := by
    rw [record.index, List.findIdx?_eq_some_iff_getElem]
    refine ⟨inside, beq_self_eq_true _, fun j before => ?_⟩
    rw [Bool.not_eq_true, beq_eq_false_iff_ne, ne_eq, text_inj]
    have apart := List.pairwise_iff_getElem.1 (List.nodup_iff_pairwise_ne.1 record.distinct) j i (by simp; omega)
      (by simpa using inside) before
    simpa using apart
  -- The name is found, so the entry is changed in its place and nothing else is.
  have set : t.setText fields[i].1 value =
      ⟨t.items, t.limit, t.entries.setIfInBounds i (.text fields[i].1, value), t.index, t.capacity, t.metatable?⟩ := by
    show t.set (.text fields[i].1) value = _
    unfold Table.set
    simp only [Value.text, position?] at found ⊢
    simp only [found]
  have names : (fields.set i (fields[i].1, value)).map Prod.fst = fields.map Prod.fst := by
    have listed : i < (fields.map Prod.fst).length := by rwa [List.length_map]
    have held : fields[i].1 = (fields.map Prod.fst)[i] := by rw [List.getElem_map]
    rw [List.map_set, held]
    exact List.set_getElem_self _
  rw [set]
  refine ⟨record.items, ?_, fun key => ?_, names ▸ record.distinct, fun e member => ?_, record.bare⟩
  · show (t.entries.setIfInBounds i _).toList = _
    rw [Array.toList_setIfInBounds, record.entries, List.map_set]
  · show t.index.get? key = _
    have same : ∀ es : List (String × Value), (es.findIdx? fun e => Value.text e.1 == key) =
        (es.map Prod.fst).findIdx? fun n => Value.text n == key := fun es => by
      rw [List.findIdx?_map]
      rfl
    rw [record.index, same, same, names]
  · obtain there | rfl := List.mem_or_eq_of_mem_set member
    · exact record.solid e there
    · exact solid

/-- A value that is set under a name is there, and so are those under other names. -/
theorem IsRecord.exists_setText (record : t.IsRecord fields) (name : String) (solid : value.isNil = false) :
    ∃ fields', (t.setText name value).IsRecord fields' ∧ (name, value) ∈ fields' ∧
      ∀ e ∈ fields, e.1 ≠ name → e ∈ fields' := by
  by_cases known : name ∈ fields.map Prod.fst
  · obtain ⟨i, inside, rfl⟩ := List.mem_iff_getElem.1 known
    rw [List.length_map] at inside
    rw [List.getElem_map]
    refine ⟨_, record.overwrite inside solid, List.mem_set inside _, fun e member other => ?_⟩
    obtain ⟨j, inside', rfl⟩ := List.mem_iff_getElem.1 member
    refine List.mem_iff_getElem.2 ⟨j, by rwa [List.length_set], List.getElem_set_ne ?_ _⟩
    rintro rfl
    exact other rfl
  · refine ⟨_, record.setText known solid, List.mem_append_right _ List.mem_cons_self, ?_⟩
    exact fun e member _ => List.mem_append_left _ member

/-- Values that are set under different names are all there in the end. -/
theorem IsRecord.foldl_setText (record : t.IsRecord fields)
    (distinct : ((fields ++ more).map Prod.fst).Nodup) (solid : ∀ e ∈ more, e.2.isNil = false) :
    (more.foldl (fun t e => t.setText e.1 e.2) t).IsRecord (fields ++ more) :=
  record.foldl IsRecord.setText distinct solid

/-- A table that is made of named values consists of them. -/
theorem isRecord_tableOf {fields : List (String × Value)} (distinct : (fields.map Prod.fst).Nodup)
    (solid : ∀ e ∈ fields, e.2.isNil = false) : (Library.tableOf fields).IsRecord fields :=
  (isRecord_nil 0 (capacityFor fields.length)).foldl_setText distinct solid

/-! ## Reading a table -/

/-- What is no text is no name. -/
theorem field_eq_nil {key : Value} (other : key.type ≠ .string) : field fields key = .nil := by
  have nowhere : fields.find? (fun e => Value.text e.1 == key) = none := by
    rw [List.find?_eq_none]
    intro e _ same
    rw [← eq_of_beq same] at other
    exact other rfl
  rw [field, nowhere]
  rfl

/-- A name has its value. -/
theorem field_text (distinct : (fields.map Prod.fst).Nodup) (there : (name, value) ∈ fields) :
    field fields (.text name) = value := by
  induction fields with
  | nil => cases there
  | cons e fields ih =>
    rw [List.map_cons, List.nodup_cons] at distinct
    obtain rfl | there := List.mem_cons.1 there
    · simp [field]
    · have other : e.1 ≠ name := by
        rintro rfl
        exact distinct.1 (List.mem_map.2 ⟨_, there, rfl⟩)
      rw [← ih distinct.2 there, field, List.find?_cons_of_neg (by simpa [text_inj] using other)]
      rfl

/-- What stands among the entries under a key. -/
def entry (t : Table) (key : Value) : Value :=
  match t.index.get? key with
  | some i => (t.entries.getD i (.nil, .nil)).2
  | none => .nil

/-- What stands under a key that is an integer wherever it can be. -/
def normalEntry (t : Table) : Value → Value
  | .int n => t.getInt n
  | key => t.entry key

/-- A float is looked up as an integer where it is one. -/
theorem get_float (t : Table) (b : UInt64) :
    t.get (.float b) =
      if t.entries.isEmpty && t.items.isEmpty then .nil else t.normalEntry (normalize (.float b)) := rfl

/-- Every key is found among the entries just if it is a name. -/
theorem IsRecord.entry (record : t.IsRecord fields) (key : Value) : t.entry key = field fields key := by
  rw [Table.entry, record.index key, field, List.find?_eq_bind_findIdx?_getElem?]
  cases found : fields.findIdx? fun e => Value.text e.1 == key with
  | none => rfl
  | some i =>
    simp only [Array.getD_eq_getD_getElem?, ← Array.getElem?_toList, record.entries, List.getElem?_map,
      Option.bind_some]
    cases fields[i]? with
    | none => rfl
    | some e => rfl

theorem IsRecord.getInt (record : t.IsRecord fields) (n : Int64) : t.getInt n = .nil := by
  have beyond : t.items.size = 0 := by
    rw [record.items]
    rfl
  have unnamed : t.entry (.int n) = .nil := by
    rw [record.entry, field_eq_nil (by simp [Value.type])]
  rw [Table.getInt]
  split
  · rw [record.items]
    rfl
  · split
    · rfl
    · exact unnamed

/-- A table of named values answers just with them. -/
theorem IsRecord.get (record : t.IsRecord fields) (key : Value) : t.get key = field fields key := by
  have found : ∀ {key v : Value}, field fields key = v → t.entry key = v := fun named =>
    (record.entry _).trans named
  -- Without entries and items, nothing is looked up.
  have empty : (t.entries.isEmpty && t.items.isEmpty) = true → fields = [] := by
    intro empty
    rw [Bool.and_eq_true, Array.isEmpty_iff] at empty
    have fields' := record.entries
    rw [empty.1] at fields'
    exact List.map_eq_nil_iff.1 fields'.symm
  have looked : ∀ {key v : Value}, field fields key = v →
      (if t.entries.isEmpty && t.items.isEmpty then .nil else t.entry key) = v := by
    intro key v named
    split
    · rename_i unnamed'
      rw [← named, empty unnamed']
      rfl
    · exact found named
  cases key with
  | string s => exact looked rfl
  | nil => exact (field_eq_nil (by simp [Value.type])).symm
  | int n => exact (record.getInt n).trans (field_eq_nil (by simp [Value.type])).symm
  | float b =>
    have unnamed : field fields (.float b) = .nil := field_eq_nil (by simp [Value.type])
    rw [unnamed, get_float, normalize]
    cases Real.toInt? b with
    | none => exact looked unnamed
    | some n => simp only [normalEntry, record.getInt n, ite_self]
  | _ => exact looked rfl

theorem IsRecord.get_text (record : t.IsRecord fields) (there : (name, value) ∈ fields) :
    t.get (.text name) = value :=
  (record.get _).trans (field_text record.distinct there)

/-! ## Sequences -/

/-- A table that consists of the values of the keys 1, 2, …. -/
structure IsSequence (t : Table) (values : List Value) : Prop where
  items : t.items.toList = values
  limit : t.limit = values.length
  entries : t.entries = #[]
  bare : t.metatable? = none

variable {values : List Value}

/-- Values are put one after the other into places that are kept for them. -/
theorem foldl_setIfInBounds {done : List Value} {items : Array Value}
    (places : items.toList = done ++ List.replicate values.length .nil) :
    (values.foldl (fun (items, i) v => (items.setIfInBounds i v, i + 1)) (items, done.length)).1.toList =
      done ++ values := by
  induction values generalizing done items with
  | nil => exact places
  | cons v values ih =>
    have next : (items.setIfInBounds done.length v).toList =
        done ++ [v] ++ List.replicate values.length .nil := by
      rw [Array.toList_setIfInBounds, places, List.length_cons, List.replicate_succ,
        List.set_append_right _ _ (Nat.le_refl _), Nat.sub_self, List.set_cons_zero, List.append_assoc]
      rfl
    have later := ih next
    rw [List.length_append, List.append_assoc] at later
    exact later

/-- A table that is made for values and gets them consists of them. -/
theorem isSequence_setItems (values : List Value) :
    ((withRoom values.length 0).setItems 0 values).IsSequence values := by
  have fits : ¬ 0 + values.length > (withRoom values.length 0).items.size := by
    rw [withRoom, Array.size_replicate]
    omega
  have set : (withRoom values.length 0).setItems 0 values =
      ⟨(values.foldl (fun (items, i) v => (items.setIfInBounds i v, i + 1))
        (Array.replicate values.length Value.nil, 0)).1, values.length, #[], ∅, capacityFor 0, none⟩ := by
    unfold setItems
    simp only [if_neg fits]
    rfl
  have stored :=
    @foldl_setIfInBounds values [] (Array.replicate values.length Value.nil) Array.toList_replicate
  rw [set]
  exact ⟨stored, rfl, rfl, rfl⟩

/-- The value of a position, counted from one. -/
theorem IsSequence.get (sequence : t.IsSequence values) {i : Nat} (inside : i < values.length)
    (small : i < 0x7FFFFFFFFFFFFFFF) : t.get (.int (Int64.ofNat (i + 1))) = values[i] := by
  have position : (Int64.ofNat (i + 1)).toNatClampNeg = i + 1 :=
    Int64.toNatClampNeg_ofNat_of_lt (Nat.succ_lt_succ small)
  have positive : 0 < Int64.ofNat (i + 1) := by
    rw [Int64.lt_iff_toInt_lt, Int64.toInt_ofNat_of_lt (Nat.succ_lt_succ small)]
    exact Int.natCast_pos.2 (Nat.succ_pos i)
  have size : t.items.size = values.length := by
    rw [← Array.length_toList, sequence.items]
  have here : (decide (0 < Int64.ofNat (i + 1)) && decide (i + 1 ≤ t.items.size)) = true := by
    rw [decide_eq_true positive, decide_eq_true (size ▸ inside)]
    rfl
  have got : t.get (.int (Int64.ofNat (i + 1))) = t.getInt (Int64.ofNat (i + 1)) := rfl
  rw [got, getInt, position, if_pos here, Nat.add_sub_cancel, Array.getD_eq_getD_getElem?,
    ← Array.getElem?_toList, sequence.items, List.getElem?_eq_getElem inside]
  rfl

/-- The length of a sequence without nil is that of its values. -/
theorem IsSequence.border (sequence : t.IsSequence values) (solid : ∀ v ∈ values, v.isNil = false) :
    t.border.1 = values.length := by
  have size : t.items.size = values.length := by
    rw [← Array.length_toList, sequence.items]
  have full : ∀ k, 0 < k → k ≤ values.length → (t.items.getD (k - 1) .nil).isNil = false := by
    intro k positive inside
    rw [Array.getD_eq_getD_getElem?, ← Array.getElem?_toList, sequence.items,
      List.getElem?_eq_getElem (by omega)]
    exact solid _ (List.getElem_mem _)
  have last : (decide (values.length > 0) && !!(t.items.getD (values.length - 1) .nil).isNil) = false := by
    by_cases filled : 0 < values.length
    · rw [full _ filled (Nat.le_refl _), Bool.not_false, Bool.not_true, Bool.and_false]
    · rw [decide_eq_false filled, Bool.false_and]
  have empty : t.entries.isEmpty = true := by
    rw [sequence.entries]
    rfl
  unfold Table.border
  simp only [last, empty, sequence.limit, size, Bool.false_eq_true, if_false, Nat.lt_irrefl, Bool.true_or,
    if_true]

end Table

end VaultConsole.Lua
