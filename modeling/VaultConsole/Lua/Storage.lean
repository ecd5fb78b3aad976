import VaultConsole.Lua.Table

/-!
# How a table is stored

A table keeps what it needs to find its entries again: the index leads to each of the other entries, their
keys are no places of the array, and a border is looked for from inside the array. `Table.Lawful` says so, and
every change of a table keeps it, whatever the sizes are that the table chooses for itself.
-/

namespace VaultConsole.Lua.Table

/-- A key that a table can have: neither nil nor NaN, nor a float that stands for an integer. -/
structure IsKey (k : Value) : Prop where
  ne_nil : k ≠ .nil
  normal : normalize k = k
  number : ∀ b, k = .float b → Real.isNaN b = false

theorem isKey_int (n : Int64) : IsKey (.int n) := ⟨nofun, rfl, nofun⟩

theorem isKey_string (s : ByteArray) : IsKey (.string s) := ⟨nofun, rfl, nofun⟩

/-- A key stands for itself once it is normal. -/
theorem normalize_normalize (k : Value) : normalize (normalize k) = normalize k := by
  cases k with
  | float b =>
    cases same : Real.toInt? b with
    | none => simp only [normalize, same]
    | some n => simp only [normalize, same]
  | _ => rfl

/-- A normal value that is neither nil nor NaN is a key. -/
theorem isKey_normalize {k key : Value} (normal : normalize k = key) (solid : key ≠ .nil)
    (number : ∀ b, key = .float b → Real.isNaN b = false) : IsKey key :=
  ⟨solid, by rw [← normal, normalize_normalize], number⟩

/-- Whether a table finds all that it keeps. -/
structure Lawful (t : Table) : Prop where
  limit_le : t.limit ≤ t.items.size
  index_eq : ∀ (k : Value) (i : Nat), t.index.get? k = some i ↔ ∃ v, t.entries[i]? = some (k, v)
  isKey : ∀ {i : Nat} {k v : Value}, t.entries[i]? = some (k, v) → IsKey k
  apart : ∀ {i : Nat} {k v : Value}, t.entries[i]? = some (k, v) → t.position? k = none

variable {t : Table} {key value : Value}

/-- Where a key stands in the array depends on the size of the array only. -/
theorem position?_congr {t t' : Table} (same : t'.items.size = t.items.size) (key : Value) :
    t'.position? key = t.position? key := by
  cases key with
  | int n => simp only [position?, same]
  | _ => rfl

/-- A table without other entries. -/
theorem lawful_bare {items : Array Value} {limit : Nat} (inside : limit ≤ items.size) (capacity : Nat)
    (metatable? : Option Nat) : Lawful ⟨items, limit, #[], ∅, capacity, metatable?⟩ where
  limit_le := inside
  index_eq k i := by simp
  isKey := nofun
  apart := nofun

theorem lawful_withRoom (items entries : Nat) : (withRoom items entries).Lawful :=
  lawful_bare (Nat.le_of_eq Array.size_replicate.symm) _ _

theorem lawful_empty : Table.empty.Lawful := lawful_bare (Nat.le_refl 0) _ _

theorem Lawful.withMetatable (lawful : t.Lawful) (metatable? : Option Nat) :
    Lawful { t with metatable? } := { lawful with }

theorem Lawful.withLimit (lawful : t.Lawful) {limit : Nat} (inside : limit ≤ t.items.size) :
    Lawful { t with limit } := { lawful with limit_le := inside }

/-- Other values in the array. -/
theorem Lawful.withItems (lawful : t.Lawful) {items : Array Value} (same : items.size = t.items.size) :
    Lawful { t with items } where
  limit_le := same ▸ lawful.limit_le
  index_eq := lawful.index_eq
  isKey := lawful.isKey
  apart there := (position?_congr same _).trans (lawful.apart there)

/-! ## Putting a value under a key -/

/-- A new key goes to the end of the other entries. -/
theorem Lawful.pushEntry (lawful : t.Lawful) (isKey : IsKey key) (outside : t.position? key = none)
    (fresh : t.index.get? key = none) (value : Value) : (t.pushEntry key value).Lawful := by
  obtain ⟨items, limit, entries, index, capacity, metatable?⟩ := t
  -- In the longer array a place is the new last one or one that was there before.
  have pushed : ∀ {i : Nat} {k v : Value}, (entries.push (key, value))[i]? = some (k, v) →
      i = entries.size ∧ k = key ∨ entries[i]? = some (k, v) := by
    intro i k v there
    rw [Array.getElem?_push] at there
    split at there
    · rename_i last
      exact .inl ⟨last, (Prod.mk.inj (Option.some.inj there)).1.symm⟩
    · exact .inr there
  refine ⟨lawful.limit_le, fun k i => ?_, ?_, ?_⟩
  · show (index.insert key entries.size)[k]? = some i ↔ _
    rw [Std.HashMap.getElem?_insert]
    -- The index knows the new key at the last place, and every other key where it was.
    by_cases same : key = k
    · subst same
      rw [if_pos (beq_self_eq_true key)]
      constructor
      · intro last
        rw [← Option.some.inj last]
        exact ⟨value, Array.getElem?_push_size⟩
      · rintro ⟨v, there⟩
        obtain ⟨last, -⟩ | before := pushed there
        · rw [last]
        · rw [(lawful.index_eq key i).2 ⟨v, before⟩] at fresh
          cases fresh
    · rw [if_neg fun equal => same (eq_of_beq equal)]
      refine (lawful.index_eq k i).trans ⟨?_, ?_⟩
      · rintro ⟨v, there⟩
        obtain ⟨inside, -⟩ := Array.getElem?_eq_some_iff.1 there
        exact ⟨v, (Array.getElem?_push_lt inside).trans (by rw [← there]; simp [inside])⟩
      · rintro ⟨v, there⟩
        obtain ⟨-, rfl⟩ | before := pushed there
        · exact absurd rfl same
        · exact ⟨v, before⟩
  · intro i k v there
    obtain ⟨-, rfl⟩ | before := pushed there
    · exact isKey
    · exact lawful.isKey before
  · intro i k v there
    obtain ⟨-, rfl⟩ | before := pushed there
    · exact outside
    · exact lawful.apart before

/-- Another value in the place of a key among the other entries. -/
theorem Lawful.setEntry (lawful : t.Lawful) {i : Nat} (found : t.index.get? key = some i) (value : Value) :
    Lawful { t with entries := t.entries.setIfInBounds i (key, value) } := by
  obtain ⟨before, there⟩ := (lawful.index_eq key i).1 found
  -- The place keeps its key, so that the index and both conditions on keys are as before.
  have keys : ∀ (j : Nat) (k : Value), (∃ v, (t.entries.setIfInBounds i (key, value))[j]? = some (k, v)) ↔
      ∃ v, t.entries[j]? = some (k, v) := by
    intro j k
    by_cases here : i = j
    · subst here
      obtain ⟨inside, there⟩ := Array.getElem?_eq_some_iff.1 there
      simp [there, inside]
    · rw [Array.getElem?_setIfInBounds_ne here]
  refine ⟨lawful.limit_le, fun k j => (lawful.index_eq k j).trans (keys j k).symm, ?_, ?_⟩
  · intro j k v placed
    obtain ⟨w, old⟩ := (keys j k).1 ⟨v, placed⟩
    exact lawful.isKey old
  · intro j k v placed
    obtain ⟨w, old⟩ := (keys j k).1 ⟨v, placed⟩
    exact lawful.apart old

theorem Lawful.place (lawful : t.Lawful) (isKey : IsKey key) (value : Value) :
    (t.place key value).Lawful := by
  unfold Table.place
  split
  · exact lawful.withItems Array.size_setIfInBounds
  · rename_i outside
    split
    · rename_i i found
      exact lawful.setEntry found value
    · rename_i fresh
      exact lawful.pushEntry isKey outside fresh value

/-- What every step of a fill keeps is kept by the whole of it. -/
theorem lawful_foldl {β : Type} {f : Table → β → Table} {bs : List β} (lawful : t.Lawful)
    (step : ∀ t b, b ∈ bs → t.Lawful → (f t b).Lawful) : (bs.foldl f t).Lawful := by
  induction bs generalizing t with
  | nil => exact lawful
  | cons b bs ih =>
    exact ih (step t b List.mem_cons_self lawful) fun t' b' there => step t' b' (List.mem_cons_of_mem _ there)

theorem Lawful.resize (lawful : t.Lawful) (size room : Nat) : (t.resize size room).Lawful := by
  have fresh : Lawful ⟨t.items.extract 0 size ++
      Array.replicate (size - (t.items.extract 0 size).size) .nil, size, #[], ∅, capacityFor room,
      t.metatable?⟩ := by
    refine lawful_bare ?_ _ _
    rw [Array.size_append, Array.size_replicate]
    omega
  unfold Table.resize
  simp only []
  -- Two fills of an empty table: from the array of the old one, and from its other entries.
  rw [← Array.foldl_toList]
  refine lawful_foldl (lawful_foldl fresh ?_) ?_
  · intro t' i _ lawful'
    split
    · exact lawful'
    · exact lawful'.place (isKey_int _) _
  · rintro t' ⟨k, v⟩ there lawful'
    obtain ⟨i, there⟩ := List.mem_iff_getElem?.1 there
    rw [Array.getElem?_toList] at there
    simp only []
    split
    · exact lawful'
    · exact lawful'.place (lawful.isKey there) _

theorem Lawful.rehash (lawful : t.Lawful) (key : Value) : (t.rehash key).Lawful := lawful.resize _ _

theorem Lawful.set (lawful : t.Lawful) (isKey : IsKey key) (value : Value) : (t.set key value).Lawful := by
  unfold Table.set
  split
  · exact lawful.withItems Array.size_setIfInBounds
  · rename_i outside
    split
    · rename_i i found
      exact lawful.setEntry found value
    · rename_i fresh
      split
      · exact lawful
      · split
        · exact lawful.pushEntry isKey outside fresh value
        · exact (lawful.rehash key).place isKey value

theorem Lawful.setText (lawful : t.Lawful) (name : String) (value : Value) : (t.setText name value).Lawful :=
  lawful.set (isKey_string _) value

/-- Putting values into an array keeps its size. -/
theorem size_foldl_setIfInBounds (values : List Value) (items : Array Value) (i : Nat) :
    (values.foldl (fun (items, i) v => (items.setIfInBounds i v, i + 1)) (items, i)).1.size = items.size := by
  induction values generalizing items i with
  | nil => rfl
  | cons v values ih => rw [List.foldl_cons, ih, Array.size_setIfInBounds]

theorem Lawful.setItems (lawful : t.Lawful) (start : Nat) (values : List Value) :
    (t.setItems start values).Lawful := by
  unfold Table.setItems
  simp only []
  split
  · exact (lawful.resize _ _).withItems (size_foldl_setIfInBounds values _ start)
  · exact lawful.withItems (size_foldl_setIfInBounds values _ start)

/-! ## Looking for a border -/

theorem halve_le (present : Nat → Bool) (fuel : Nat) {i j : Nat} (below : i ≤ j) :
    halve present fuel i j ≤ j := by
  induction fuel generalizing i j with
  | zero => exact below
  | succ fuel ih =>
    unfold halve
    split
    · exact below
    · simp only []
      split
      · exact ih (by omega)
      · exact Nat.le_trans (ih (by omega)) (by omega)

/-- The place from which a border is looked for stays inside the array. -/
theorem Lawful.border_le (lawful : t.Lawful) : t.border.2 ≤ t.items.size := by
  have inside := lawful.limit_le
  unfold border
  simp only []
  split
  · split
    · simp only []
      split <;> omega
    · have below := halve_le (fun k => !(t.items.getD (k - 1) .nil).isNil) 64 (Nat.zero_le t.limit)
      simp only []
      split <;> omega
  · split
    · rename_i before
      split
      · exact inside
      · split
        · exact halve_le (fun k => !(t.items.getD (k - 1) .nil).isNil) 64 (Nat.le_of_lt before)
        · exact inside
    · exact inside

end VaultConsole.Lua.Table
