import Mathlib.Data.List.Induction
import Mathlib.Data.List.Sort
import Mathlib.Data.String.Basic
import VaultConsole.Script.Value

/-!
# Entries that are sorted

Of several entries with one key, the last one stays (`mem_sortEntries`), and what stays is in strictly ascending
order of the keys (`ascending_sortEntries`). So sorted entries are a normal form: two lists in which the same
entries come last for their keys are sorted to the same (`sortEntries_congr`).
-/

namespace VaultConsole.ScriptValue

variable {α β : Type} {es es' : List (String × α)} {key k : String} {v w : α}

/-! ## Last entries -/

/-- Whether a value belongs to the last entry of a key. -/
def IsLast (es : List (String × α)) (key : String) (v : α) : Prop :=
  ∃ before after, es = before ++ (key, v) :: after ∧ key ∉ after.map Prod.fst

theorem IsLast.mem (last : IsLast es key v) : (key, v) ∈ es := by
  obtain ⟨before, after, rfl, -⟩ := last
  exact List.mem_append_right _ List.mem_cons_self

/-- An entry at the end is the last of its key, and other keys have their last entries before it. -/
theorem isLast_concat : IsLast (es ++ [(k, w)]) key v ↔ (key = k ∧ v = w) ∨ (key ≠ k ∧ IsLast es key v) := by
  constructor
  · rintro ⟨before, after, split, fresh⟩
    cases after using List.reverseRecOn with
    | nil =>
      obtain ⟨-, same⟩ := List.append_inj' split rfl
      exact .inl ((Prod.mk.inj (List.singleton_inj.1 same)).imp Eq.symm Eq.symm)
    | append_singleton after e =>
      rw [← List.cons_append, ← List.append_assoc] at split
      obtain ⟨rfl, same⟩ := List.append_inj' split rfl
      obtain rfl := List.singleton_inj.1 same
      rw [List.map_append, List.mem_append, not_or] at fresh
      exact .inr ⟨fun same => fresh.2 (List.mem_singleton.2 same), before, after, rfl, fresh.1⟩
  · rintro (⟨rfl, rfl⟩ | ⟨other, before, after, rfl, fresh⟩)
    · exact ⟨es, [], rfl, List.not_mem_nil⟩
    · refine ⟨before, after ++ [(k, w)], List.append_assoc .., ?_⟩
      rw [List.map_append, List.mem_append, not_or]
      exact ⟨fresh, fun same => other (List.mem_singleton.1 same)⟩

/-- Every key of an entry has a last entry. -/
theorem exists_isLast (there : key ∈ es.map Prod.fst) : ∃ v, IsLast es key v := by
  induction es using List.reverseRecOn with
  | nil => cases there
  | append_singleton es e ih =>
    by_cases here : key = e.1
    · exact ⟨e.2, isLast_concat.2 (.inl ⟨here, rfl⟩)⟩
    · rw [List.map_append, List.mem_append] at there
      obtain ⟨v, last⟩ := ih (there.resolve_right fun same => here (List.mem_singleton.1 same))
      exact ⟨v, isLast_concat.2 (.inr ⟨here, last⟩)⟩

/-- Where keys differ, every entry is the last of its key. -/
theorem isLast_iff_mem (distinct : (es.map Prod.fst).Nodup) : IsLast es key v ↔ (key, v) ∈ es := by
  refine ⟨IsLast.mem, fun there => ?_⟩
  obtain ⟨before, after, rfl⟩ := List.append_of_mem there
  rw [List.map_append, List.map_cons, List.nodup_append, List.nodup_cons] at distinct
  exact ⟨before, after, rfl, distinct.2.1.1⟩

/-- Other values under the same keys. -/
theorem isLast_map (f : α → β) {x : β} :
    IsLast (es.map fun e => (e.1, f e.2)) key x ↔ ∃ v, IsLast es key v ∧ x = f v := by
  induction es using List.reverseRecOn with
  | nil =>
    constructor
    · exact fun last => nomatch last.mem
    · rintro ⟨v, last, -⟩
      exact nomatch last.mem
  | append_singleton es e ih =>
    obtain ⟨k, w⟩ := e
    rw [List.map_append, List.map_singleton, isLast_concat, ih]
    simp only [isLast_concat]
    constructor
    · rintro (⟨rfl, rfl⟩ | ⟨other, v, last, rfl⟩)
      · exact ⟨w, .inl ⟨rfl, rfl⟩, rfl⟩
      · exact ⟨v, .inr ⟨other, last⟩, rfl⟩
    · rintro ⟨v, ⟨rfl, rfl⟩ | ⟨other, last⟩, rfl⟩
      · exact .inl ⟨rfl, rfl⟩
      · exact .inr ⟨other, v, last, rfl⟩

/-! ## Sorting -/

/-- Whether entries are in strictly ascending order of their keys. -/
def Ascending (es : List (String × α)) : Prop := es.Pairwise fun a b => a.1 < b.1

/-- An entry more takes the place of the one with its key. -/
theorem mem_insertEntry (ascending : Ascending es) :
    (key, v) ∈ insertEntry k w es ↔ (key = k ∧ v = w) ∨ (key ≠ k ∧ (key, v) ∈ es) := by
  -- By where the key belongs: before the first entry, in its place, or behind it.
  induction es with
  | nil => simp [insertEntry]
  | cons e es ih =>
    obtain ⟨l, u⟩ := e
    obtain ⟨least, ascending⟩ := List.pairwise_cons.1 ascending
    rw [insertEntry]
    split
    · rename_i less
      have other : (key, v) ∈ (l, u) :: es → key ≠ k := by
        rintro there rfl
        obtain same | later := List.mem_cons.1 there
        · exact lt_irrefl _ (lt_of_lt_of_eq less (Prod.mk.inj same).1.symm)
        · exact lt_asymm less (least _ later)
      rw [List.mem_cons, Prod.mk.injEq]
      exact or_congr_right ⟨fun there => ⟨other there, there⟩, And.right⟩
    · split
      · rename_i same
        obtain rfl : k = l := eq_of_beq same
        rw [List.mem_cons, List.mem_cons, Prod.mk.injEq, Prod.mk.injEq]
        refine or_congr_right ⟨fun later => ⟨?_, .inr later⟩, fun ⟨other, there⟩ => ?_⟩
        · exact ne_of_gt (least _ later)
        · exact there.resolve_left fun here => other here.1
      · rename_i different
        have different : l ≠ k := fun same => different (beq_iff_eq.2 same.symm)
        rw [List.mem_cons, List.mem_cons, ih ascending, Prod.mk.injEq]
        constructor
        · rintro (⟨rfl, rfl⟩ | new | ⟨other, there⟩)
          · exact .inr ⟨different, .inl ⟨rfl, rfl⟩⟩
          · exact .inl new
          · exact .inr ⟨other, .inr there⟩
        · rintro (new | ⟨other, here | there⟩)
          · exact .inr (.inl new)
          · exact .inl here
          · exact .inr (.inr ⟨other, there⟩)

theorem ascending_insertEntry (ascending : Ascending es) (k : String) (w : α) :
    Ascending (insertEntry k w es) := by
  -- The key is put before the first greater one, and what is in front of it is less.
  induction es with
  | nil => exact List.pairwise_singleton _ _
  | cons e es ih =>
    obtain ⟨l, u⟩ := e
    obtain ⟨least, rest⟩ := List.pairwise_cons.1 ascending
    rw [insertEntry]
    split
    · rename_i less
      refine List.pairwise_cons.2 ⟨fun e there => ?_, ascending⟩
      obtain rfl | later := List.mem_cons.1 there
      · exact less
      · exact lt_trans less (least e later)
    · rename_i notLess
      split
      · rename_i same
        obtain rfl : k = l := eq_of_beq same
        exact List.pairwise_cons.2 ⟨least, rest⟩
      · rename_i different
        have less : l < k := lt_of_le_of_ne (not_lt.1 notLess) fun same => different (beq_iff_eq.2 same.symm)
        refine List.pairwise_cons.2 ⟨fun e there => ?_, ih rest⟩
        obtain ⟨rfl, -⟩ | ⟨-, later⟩ := (mem_insertEntry rest).1 there
        · exact less
        · exact least e later

theorem sortEntries_concat (es : List (String × α)) (e : String × α) :
    sortEntries (es ++ [e]) = insertEntry e.1 e.2 (sortEntries es) := by
  rw [sortEntries, List.foldl_append]
  rfl

theorem ascending_sortEntries (es : List (String × α)) : Ascending (sortEntries es) := by
  induction es using List.reverseRecOn with
  | nil => exact .nil
  | append_singleton es e ih =>
    rw [sortEntries_concat]
    exact ascending_insertEntry ih _ _

/-- Sorting keeps just the last entry of every key. -/
theorem mem_sortEntries : (key, v) ∈ sortEntries es ↔ IsLast es key v := by
  induction es using List.reverseRecOn with
  | nil => exact ⟨nofun, fun last => nomatch last.mem⟩
  | append_singleton es e ih =>
    rw [sortEntries_concat, mem_insertEntry (ascending_sortEntries es), isLast_concat, ih]

/-- Sorting keeps every key. -/
theorem mem_keys_sortEntries : key ∈ (sortEntries es).map Prod.fst ↔ key ∈ es.map Prod.fst := by
  constructor
  · intro there
    obtain ⟨⟨key, v⟩, kept, rfl⟩ := List.mem_map.1 there
    exact List.mem_map_of_mem (mem_sortEntries.1 kept).mem
  · intro there
    obtain ⟨v, last⟩ := exists_isLast there
    exact List.mem_map_of_mem (mem_sortEntries.2 last)

/-- Lists in which the same entries come last are sorted to the same. -/
theorem sortEntries_congr (same : ∀ key v, IsLast es key v ↔ IsLast es' key v) :
    sortEntries es = sortEntries es' := by
  have antisymm : Std.Antisymm fun a b : String × α => a.1 < b.1 :=
    ⟨fun _ _ less greater => absurd less (lt_asymm greater)⟩
  have irrefl : Std.Irrefl fun a b : String × α => a.1 < b.1 := ⟨fun _ => lt_irrefl _⟩
  refine (ascending_sortEntries es).eq_of_mem_iff (ascending_sortEntries es') fun e => ?_
  rw [← Prod.mk.eta (p := e), mem_sortEntries, mem_sortEntries]
  exact same e.1 e.2

/-- Where keys differ, the order of entries does not matter. -/
theorem sortEntries_perm (perm : es.Perm es') (distinct : (es.map Prod.fst).Nodup) :
    sortEntries es = sortEntries es' :=
  sortEntries_congr fun key v => by
    rw [isLast_iff_mem distinct, isLast_iff_mem ((perm.map Prod.fst).nodup_iff.1 distinct), perm.mem_iff]

end VaultConsole.ScriptValue
