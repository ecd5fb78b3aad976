import VaultConsole.Proofs.Export.Arrays
import VaultConsole.Proofs.Export.Entries
import VaultConsole.Proofs.Export.Keys

/-!
# What values unfold to

Tables may share and contain each other, in cycles too, and one table may be reached at many depths. What
becomes of a value is told by paths: a path in the data leads just where the same path leads through the tables,
as far as tables are opened (`View.at_exportWithin`). So data nests no deeper than that, and a table is named
instead of opened just where a path ends at it there. Nothing else matters than what is met on the way: values
that a bisimulation relates become equal (`View.exportWithin_bisimilar`).
-/

namespace VaultConsole

namespace ScriptValue

/-! ## Paths in data -/

/-- A place in an array or an object. -/
inductive Place where
  | item (i : Nat)
  | entry (key : String)

/-- Whether a path in data leads to a value. -/
inductive At : ScriptValue → List Place → ScriptValue → Prop
  | here (x : ScriptValue) : At x [] x
  | item {items : List ScriptValue} {i : Nat} {y x : ScriptValue} {path : List Place} :
      items[i]? = some y → At y path x → At (.array items) (.item i :: path) x
  | entry {entries : List (String × ScriptValue)} {key : String} {y x : ScriptValue} {path : List Place} :
      (key, y) ∈ entries → At y path x → At (.object entries) (.entry key :: path) x

theorem at_nil {x y : ScriptValue} : At y [] x ↔ x = y :=
  ⟨fun there => by cases there; rfl, fun same => same ▸ .here y⟩

theorem at_array {items : List ScriptValue} {place : Place} {path : List Place} {x : ScriptValue} :
    At (.array items) (place :: path) x ↔ ∃ i y, place = .item i ∧ items[i]? = some y ∧ At y path x := by
  constructor
  · rintro (_ | ⟨there, later⟩)
    exact ⟨_, _, rfl, there, later⟩
  · rintro ⟨i, y, rfl, there, later⟩
    exact .item there later

theorem at_object {entries : List (String × ScriptValue)} {place : Place} {path : List Place} {x : ScriptValue} :
    At (.object entries) (place :: path) x ↔ ∃ key y, place = .entry key ∧ (key, y) ∈ entries ∧ At y path x := by
  constructor
  · rintro (_ | _ | ⟨there, later⟩)
    exact ⟨_, _, rfl, there, later⟩
  · rintro ⟨key, y, rfl, there, later⟩
    exact .entry there later

/-! ## Nesting -/

mutual

/-- How deep arrays and objects nest. -/
def nesting : ScriptValue → Nat
  | .array items => nestingOfItems items + 1
  | .object entries => nestingOfEntries entries + 1
  | _ => 0

/-- How deep items nest. -/
def nestingOfItems : List ScriptValue → Nat
  | [] => 0
  | v :: vs => max (nesting v) (nestingOfItems vs)

/-- How deep the values of entries nest. -/
def nestingOfEntries : List (String × ScriptValue) → Nat
  | [] => 0
  | (_, v) :: es => max (nesting v) (nestingOfEntries es)

end

theorem nestingOfItems_le {n : Nat} {items : List ScriptValue} :
    nestingOfItems items ≤ n ↔ ∀ v ∈ items, nesting v ≤ n := by
  induction items with
  | nil => simp [nestingOfItems]
  | cons v vs ih => rw [nestingOfItems, Nat.max_le, ih, List.forall_mem_cons]

theorem nestingOfEntries_le {n : Nat} {entries : List (String × ScriptValue)} :
    nestingOfEntries entries ≤ n ↔ ∀ e ∈ entries, nesting e.2 ≤ n := by
  induction entries with
  | nil => simp [nestingOfEntries]
  | cons e es ih =>
    obtain ⟨key, v⟩ := e
    rw [nestingOfEntries, Nat.max_le, ih, List.forall_mem_cons]

end ScriptValue

namespace Lua

open ScriptValue (Place At IsLast)

variable {w w' : View} {h h' : Heap}

/-! ## Paths through tables -/

/-- Whether a value becomes what stands in a place of what the table becomes: it is the item there if the table is
a sequence, and else the value of the last entry with the name. -/
inductive View.Child (w : View) (h : Heap) (r : Nat) : Place → Value → Prop
  | item {n : Int64} {i : Nat} : 0 < n → (h.table r).HasKeysTo n → i < n.toNatClampNeg →
      Child w h r (.item i) (h.rawGet r (.int (Int64.ofNat (i + 1))))
  | entry {key : String} {v : Value} : (¬ ∃ n : Int64, 0 < n ∧ (h.table r).HasKeysTo n) →
      IsLast (w.fields r) key v → Child w h r (.entry key) v

/-- Whether a path through tables leads to a value. -/
inductive View.Leads (w : View) (h : Heap) : Value → List Place → Value → Prop
  | here (v : Value) : Leads w h v [] v
  | through {r : Nat} {place : Place} {path : List Place} {v u : Value} : w.Child h r place v →
      Leads w h v path u → Leads w h (.table r) (place :: path) u

/-- Whether a value contains another one through a number of tables. -/
inductive Heap.Reaches (h : Heap) : Value → Nat → Value → Prop
  | here (v : Value) : Reaches h v 0 v
  | through {r n : Nat} {k u : Value} : (h.table r).HasKey k → Reaches h (h.rawGet r k) n u →
      Reaches h (.table r) (n + 1) u

namespace View

theorem leads_nil {v u : Value} : w.Leads h v [] u ↔ u = v :=
  ⟨fun leads => by cases leads; rfl, by rintro rfl; exact .here u⟩

theorem leads_cons {v u : Value} {place : Place} {path : List Place} :
    w.Leads h v (place :: path) u ↔ ∃ r u', v = .table r ∧ w.Child h r place u' ∧ w.Leads h u' path u := by
  constructor
  · rintro (_ | ⟨child, leads⟩)
    exact ⟨_, _, rfl, child, leads⟩
  · rintro ⟨r, u', rfl, child, leads⟩
    exact .through child leads

/-- What stands in a place comes from the value of a key. -/
theorem Child.exists_key (shows : w.Shows h) {r : Nat} {place : Place} {v : Value}
    (child : w.Child h r place v) : ∃ k, (h.table r).HasKey k ∧ h.rawGet r k = v := by
  cases child with
  | @item n i positive keys inside =>
    obtain ⟨m, fits, rfl, clamp⟩ := exists_ofNat positive
    rw [clamp] at inside
    refine ⟨_, (keys _).2 ?_, rfl⟩
    exact (mem_itemKeys fits _).1 (List.mem_map.2 ⟨i, List.mem_range.2 inside, rfl⟩)
  | entry other last =>
    obtain ⟨⟨k, u⟩, there, same⟩ := List.mem_map.1 last.mem
    obtain rfl : u = v := (Prod.mk.inj same).2
    obtain ⟨isKey, got, solid⟩ := ((shows.entries r).mem_iff k u).1 there
    exact ⟨k, ⟨isKey, got ▸ solid⟩, got⟩

theorem Leads.reaches (shows : w.Shows h) {v u : Value} {path : List Place} (leads : w.Leads h v path u) :
    h.Reaches v path.length u := by
  induction leads with
  | here v => exact .here v
  | through child _ ih =>
    obtain ⟨k, has, rfl⟩ := child.exists_key shows
    exact .through has ih

/-! ## Unfolding -/

/-- The items and entries of a table that is opened are what its children become. -/
theorem at_exportWithin_cons (shows : w.Shows h) (levels r : Nat) {place : Place} {path : List Place}
    {x : ScriptValue} : At (w.exportWithin (levels + 1) (.table r)) (place :: path) x ↔
      ∃ u, w.Child h r place u ∧ At (w.exportWithin levels u) path x := by
  by_cases sequence : ∃ n : Int64, 0 < n ∧ (h.table r).HasKeysTo n
  · obtain ⟨n, positive, keys⟩ := sequence
    obtain ⟨m, fits, rfl, clamp⟩ := exists_ofNat positive
    rw [exportWithin_array shows levels (Nat.succ_pos m) fits keys, ScriptValue.at_array]
    constructor
    · rintro ⟨i, y, rfl, there, later⟩
      rw [List.getElem?_map, Option.map_eq_some_iff] at there
      obtain ⟨j, listed, rfl⟩ := there
      obtain ⟨inside, same⟩ := List.getElem?_eq_some_iff.1 listed
      rw [List.length_range] at inside
      rw [List.getElem_range] at same
      subst same
      exact ⟨_, .item positive keys (by rwa [clamp]), later⟩
    · rintro ⟨u, child, later⟩
      cases child with
      | @item n' i positive' keys' inside =>
        obtain ⟨m', fits', rfl, clamp'⟩ := exists_ofNat positive'
        -- There is one border only, so both tell of the same number of items.
        have same := (shows.length r).eq_of_hasKeysTo (Nat.succ_pos m) fits keys
        have same' := (shows.length r).eq_of_hasKeysTo (Nat.succ_pos m') fits' keys'
        rw [clamp'] at inside
        refine ⟨i, _, rfl, ?_, later⟩
        rw [List.getElem?_map, List.getElem?_range (by omega)]
        rfl
      | entry other _ => exact absurd ⟨_, positive, keys⟩ other
  · rw [exportWithin_object shows levels sequence, ScriptValue.at_object]
    simp only [ScriptValue.mem_sortEntries, ScriptValue.isLast_map]
    constructor
    · rintro ⟨key, y, rfl, ⟨u, last, rfl⟩, later⟩
      exact ⟨u, .entry sequence last, later⟩
    · rintro ⟨u, child, later⟩
      cases child with
      | item positive keys _ => exact absurd ⟨_, positive, keys⟩ sequence
      | @entry key _ _ last => exact ⟨key, _, rfl, ⟨u, last, rfl⟩, later⟩

/-- Only a table that is opened has anything in it. -/
theorem exportWithin_closed {levels : Nat} {v : Value} (closed : ∀ n r, levels = n + 1 → v ≠ .table r)
    {place : Place} {path : List Place} {x : ScriptValue} : ¬ At (w.exportWithin levels v) (place :: path) x := by
  intro there
  cases v with
  | table r =>
    cases levels with
    | zero => cases there
    | succ n => exact closed n r rfl rfl
  | _ =>
    unfold exportWithin at there
    cases there

/-- Paths in the data are paths through the tables, as far as these are opened. -/
theorem at_exportWithin (shows : w.Shows h) (path : List Place) (levels : Nat) (v : Value) (x : ScriptValue) :
    At (w.exportWithin levels v) path x ↔
      path.length ≤ levels ∧ ∃ u, w.Leads h v path u ∧ x = w.exportWithin (levels - path.length) u := by
  induction path generalizing levels v with
  | nil =>
    simp only [ScriptValue.at_nil, leads_nil, exists_eq_left, List.length_nil, Nat.zero_le, true_and, Nat.sub_zero]
  | cons place path ih =>
    constructor
    · intro there
      by_cases opened : ∃ n r, levels = n + 1 ∧ v = .table r
      · obtain ⟨n, r, rfl, rfl⟩ := opened
        obtain ⟨u, child, later⟩ := (at_exportWithin_cons shows n r).1 there
        obtain ⟨le, u', leads, same⟩ := (ih n u).1 later
        refine ⟨Nat.succ_le_succ le, u', .through child leads, ?_⟩
        rw [same, List.length_cons, Nat.add_sub_add_right]
      · exact absurd there (exportWithin_closed fun n r level table => opened ⟨n, r, level, table⟩)
    · rintro ⟨le, u, leads, same⟩
      obtain ⟨r, u', rfl, child, later⟩ := leads_cons.1 leads
      obtain ⟨n, rfl⟩ := Nat.exists_eq_succ_of_ne_zero (Nat.ne_of_gt (Nat.lt_of_lt_of_le (Nat.succ_pos _) le))
      refine (at_exportWithin_cons shows n r).2 ⟨u', child, (ih n u').2 ⟨Nat.le_of_succ_le_succ le, u, later, ?_⟩⟩
      rw [same, List.length_cons, Nat.succ_eq_add_one, Nat.add_sub_add_right]

/-- Tables are named where they are no longer opened, and nothing else has that name. -/
theorem exportWithin_eq_opaque_table {levels : Nat} {v : Value} :
    w.exportWithin levels v = .opaqueType "table" ↔ levels = 0 ∧ ∃ r, v = .table r := by
  constructor
  · intro named
    cases v with
    | table r =>
      cases levels with
      | zero => exact ⟨rfl, r, rfl⟩
      | succ levels =>
        rw [exportWithin_table, exportEntries] at named
        split at named
        · cases named
        · cases named
    | _ =>
      unfold exportWithin at named
      exact absurd named (by simp [Value.kind, Value.type, BasicType.name])
  · rintro ⟨rfl, r, rfl⟩
    rfl

/-- Data nests no deeper than tables are opened. -/
theorem nesting_exportWithin (shows : w.Shows h) (levels : Nat) (v : Value) :
    (w.exportWithin levels v).nesting ≤ levels := by
  -- Each table that is opened takes one of the levels.
  induction levels generalizing v with
  | zero =>
    cases v with
    | _ =>
      unfold exportWithin
      exact Nat.le_refl 0
  | succ levels ih =>
    cases v with
    | table r =>
      by_cases sequence : ∃ n : Int64, 0 < n ∧ (h.table r).HasKeysTo n
      · obtain ⟨n, positive, keys⟩ := sequence
        obtain ⟨m, fits, rfl, -⟩ := exists_ofNat positive
        rw [exportWithin_array shows levels (Nat.succ_pos m) fits keys, ScriptValue.nesting]
        refine Nat.succ_le_succ (ScriptValue.nestingOfItems_le.2 fun x there => ?_)
        obtain ⟨i, -, rfl⟩ := List.mem_map.1 there
        exact ih _
      · rw [exportWithin_object shows levels sequence, ScriptValue.nesting]
        refine Nat.succ_le_succ (ScriptValue.nestingOfEntries_le.2 fun e there => ?_)
        obtain ⟨u, -, same⟩ := (ScriptValue.isLast_map _).1 (ScriptValue.mem_sortEntries.1 there)
        exact same ▸ ih u
    | _ =>
      unfold exportWithin
      exact Nat.zero_le _

end View

/-! ## Bisimulation -/

/-- Whether a value is the same outside of a session. -/
def Value.IsPlain (v : Value) : Prop :=
  v.type = .nil ∨ v.type = .boolean ∨ v.type = .number ∨ v.type = .string

/-- Whether a value cannot leave its session. -/
def Value.IsHeld (v : Value) : Prop := v.type = .function ∨ v.type = .thread ∨ v.type = .userdata

/-- Whether keys are of the same kind and have the same name. -/
structure SameKey (k k' : Value) : Prop where
  kind : k.kind = k'.kind
  name : exportKey k = exportKey k'

/-- Whether values look alike, where the values inside of tables are related. -/
inductive Alike (w w' : View) (R : Value → Value → Prop) : Value → Value → Prop
  | plain {v : Value} : v.IsPlain → Alike w w' R v v
  | held {v v' : Value} : v.IsHeld → v'.IsHeld → v.kind = v'.kind → Alike w w' R v v'
  | table {r r' : Nat} :
      List.Forall₂ (fun e e' => SameKey e.1 e'.1 ∧ R e.2 e'.2) (w.entries r) (w'.entries r') →
      Alike w w' R (.table r) (.table r')

/-- Whether related values look alike at every depth. -/
def IsBisimulation (w w' : View) (R : Value → Value → Prop) : Prop := ∀ v v', R v v' → Alike w w' R v v'

theorem Value.IsPlain.ne_table {v : Value} (plain : v.IsPlain) (r : Nat) : v ≠ .table r := by
  rintro rfl
  simp [IsPlain, type] at plain

theorem isItemKey_congr (n : Nat) {k k' : Value} (same : SameKey k k') : isItemKey n k = isItemKey n k' := by
  by_cases integer : k.kind = "integer"
  · obtain ⟨i, rfl⟩ := exists_int_of_kind integer
    obtain ⟨j, rfl⟩ := exists_int_of_kind (same.kind ▸ integer)
    rw [exportKey_int_inj.1 same.name]
  · have other : k'.kind ≠ "integer" := same.kind ▸ integer
    have apart : ∀ {k : Value}, k.kind ≠ "integer" → isItemKey n k = false := by
      intro k other
      cases k with
      | int i => exact absurd rfl other
      | _ => rfl
    rw [apart integer, apart other]

theorem isSequence_congr (n : Nat) {α β : Type} {es : List (Value × α)} {es' : List (Value × β)}
    (same : List.Forall₂ (fun e e' => SameKey e.1 e'.1) es es') : isSequence n es = isSequence n es' := by
  have items : (es.all fun e => isItemKey n e.1) = es'.all fun e => isItemKey n e.1 := by
    induction same with
    | nil => rfl
    | cons key _ ih => rw [List.all_cons, List.all_cons, isItemKey_congr n key, ih]
  rw [isSequence, isSequence, same.length_eq, items]

/-- Keys of items are the same if they have the same name. -/
theorem eq_of_sameKey {n : Nat} {es es' : List (Value × ScriptValue)}
    (same : List.Forall₂ (fun e e' => SameKey e.1 e'.1 ∧ e.2 = e'.2) es es')
    (items : ∀ e ∈ es, isItemKey n e.1 = true) : es = es' := by
  induction same with
  | nil => rfl
  | @cons e e' es es' heads tails ih =>
    obtain ⟨k, x⟩ := e
    obtain ⟨k', x'⟩ := e'
    obtain ⟨key, rfl⟩ := heads
    have item := items (k, x) List.mem_cons_self
    have item' := item
    rw [isItemKey_congr n key] at item'
    obtain ⟨i, -, rfl⟩ := List.mem_map.1 (mem_itemKeys_of_isItemKey item)
    obtain ⟨j, -, rfl⟩ := List.mem_map.1 (mem_itemKeys_of_isItemKey item')
    rw [exportKey_int_inj.1 key.name, ih fun e there => items e (List.mem_cons_of_mem _ there)]

/-- Tables of the same keys and the same data become the same, if sequences report their lengths. -/
theorem exportEntries_congr {n n' : Nat} {es es' : List (Value × ScriptValue)}
    (same : List.Forall₂ (fun e e' => SameKey e.1 e'.1 ∧ e.2 = e'.2) es es')
    (lengths : ∀ m, isSequence m es = true → n = m ∧ n' = m) : exportEntries n es = exportEntries n' es' := by
  have keys : ∀ m, isSequence m es = isSequence m es' := fun m =>
    isSequence_congr m (same.imp fun _ _ => And.left)
  rw [exportEntries, exportEntries]
  by_cases sequence : isSequence n es = true
  · obtain ⟨-, rfl⟩ := lengths n sequence
    have items : ∀ e ∈ es, isItemKey n' e.1 = true := by
      simp only [isSequence, Bool.and_eq_true, List.all_eq_true] at sequence
      exact sequence.2
    rw [← keys n', if_pos sequence, if_pos sequence, eq_of_sameKey same items]
  · have other : ¬ isSequence n' es' = true := by
      rw [← keys n']
      intro sequence'
      obtain ⟨rfl, -⟩ := lengths n' sequence'
      exact sequence sequence'
    rw [if_neg sequence, if_neg other]
    have named : es.map (fun e => (exportKey e.1, e.2)) = es'.map fun e => (exportKey e.1, e.2) := by
      clear lengths keys sequence other
      induction same with
      | nil => rfl
      | cons heads _ ih => rw [List.map_cons, List.map_cons, heads.1.name, heads.2, ih]
    exact congrArg (fun es => ScriptValue.object (ScriptValue.sortEntries es)) named

namespace View

/-- What is no table becomes the same everywhere. -/
theorem exportWithin_leaf (w w' : View) (levels : Nat) {v : Value} (leaf : ∀ r, v ≠ .table r) :
    w.exportWithin levels v = w'.exportWithin levels v := by
  cases v with
  | table r => exact absurd rfl (leaf r)
  | _ =>
    unfold exportWithin
    rfl

theorem exportWithin_held (w : View) (levels : Nat) {v : Value} (held : v.IsHeld) :
    w.exportWithin levels v = .opaqueType v.kind := by
  cases v with
  | nil | bool b | int n | float b | string s | table r => simp [Value.IsHeld, Value.type] at held
  | _ => unfold exportWithin; rfl

/-- A sequence reports its length. -/
theorem Shows.length_eq (shows : w.Shows h) {r n : Nat} (sequence : isSequence n (w.entries r) = true) :
    w.length r = n := by
  obtain ⟨positive, fits, perm⟩ := perm_of_isSequence (shows.entries r).distinct sequence
  exact (shows.length r).eq_of_hasKeysTo positive fits (((shows.entries r).perm_iff fits).1 perm)

/-- Values that a bisimulation relates become equal. -/
theorem exportWithin_bisimilar (shows : w.Shows h) (shows' : w'.Shows h') {R : Value → Value → Prop}
    (bisimulation : IsBisimulation w w' R) (levels : Nat) {v v' : Value} (related : R v v') :
    w.exportWithin levels v = w'.exportWithin levels v' := by
  induction levels generalizing v v' with
  | zero =>
    cases bisimulation v v' related with
    | plain plain => exact exportWithin_leaf w w' 0 plain.ne_table
    | held held held' same => rw [exportWithin_held w 0 held, exportWithin_held w' 0 held', same]
    | table _ => rfl
  | succ levels ih =>
    cases bisimulation v v' related with
    | plain plain => exact exportWithin_leaf w w' _ plain.ne_table
    | held held held' same => rw [exportWithin_held w _ held, exportWithin_held w' _ held', same]
    | @table r r' entries =>
      rw [exportWithin_table, exportWithin_table]
      refine exportEntries_congr ?_ fun m sequence => ?_
      · rw [List.forall₂_map_left_iff, List.forall₂_map_right_iff]
        exact entries.imp fun _ _ same => ⟨same.1, ih same.2⟩
      · rw [isSequence_map] at sequence
        refine ⟨shows.length_eq sequence, shows'.length_eq ?_⟩
        rw [← isSequence_congr m (entries.imp fun _ _ => And.left)]
        exact sequence

/-- Whatever tables share and however they contain each other, the data of a value nests at most as many
containers as may be opened. In it, a table is named instead of opened just where a path of as many places leads
to one, so nowhere if the tables nest no deeper. And values that a bisimulation relates, in whatever heaps, have
equal data. -/
theorem exportValue_unfolding (shows : w.Shows h) (v : Value) :
    (w.exportValue v).nesting ≤ ScriptValue.maxDepth ∧
    (∀ path, At (w.exportValue v) path (.opaqueType "table") ↔
      path.length = ScriptValue.maxDepth ∧ ∃ r, w.Leads h v path (.table r)) ∧
    ((∀ n r, h.Reaches v n (.table r) → n < ScriptValue.maxDepth) →
      ∀ path, ¬ At (w.exportValue v) path (.opaqueType "table")) ∧
    ∀ {w' : View} {h' : Heap}, w'.Shows h' → ∀ {R : Value → Value → Prop}, IsBisimulation w w' R →
      ∀ {v' : Value}, R v v' → w.exportValue v = w'.exportValue v' := by
  -- No level is left just behind as many places as may be opened.
  have cut : ∀ path, At (w.exportValue v) path (.opaqueType "table") ↔
      path.length = ScriptValue.maxDepth ∧ ∃ r, w.Leads h v path (.table r) := by
    intro path
    rw [exportValue, at_exportWithin shows]
    constructor
    · rintro ⟨le, u, leads, named⟩
      obtain ⟨nothing, r, rfl⟩ := exportWithin_eq_opaque_table.1 named.symm
      exact ⟨Nat.le_antisymm le (Nat.le_of_sub_eq_zero nothing), r, leads⟩
    · rintro ⟨length, r, leads⟩
      refine ⟨Nat.le_of_eq length, .table r, leads, ?_⟩
      rw [length, Nat.sub_self]
      rfl
  refine ⟨nesting_exportWithin shows _ v, cut, fun nests path named => ?_, ?_⟩
  · obtain ⟨length, r, leads⟩ := (cut path).1 named
    exact Nat.lt_irrefl _ (length ▸ nests _ r (leads.reaches shows))
  · intro w' h' shows' R bisimulation v' related
    exact exportWithin_bisimilar shows shows' bisimulation _ related

/-- A table that contains itself becomes the same as two tables that contain each other. -/
theorem exportValue_unfolding_rings :
    (Heap.ofItems [#[.table 0]]).exportValue (.table 0) =
      (Heap.ofItems [#[.table 1], #[.table 0]]).exportValue (.table 0) := by
  have entries : ∀ r < 2, (Heap.ofItems [#[.table 1], #[.table 0]]).view.entries r = [(.int 1, .table (1 - r))] := by
    decide
  refine (exportValue_unfolding (Heap.ofItems_shows (by decide)) (.table 0)).2.2.2
    (Heap.ofItems_shows (by decide)) (R := fun v v' => v = .table 0 ∧ ∃ r < 2, v' = .table r) ?_
    ⟨rfl, 0, by decide, rfl⟩
  rintro v v' ⟨rfl, r, inside, rfl⟩
  refine .table ?_
  rw [entries r inside]
  exact .cons ⟨⟨rfl, rfl⟩, rfl, 1 - r, by omega, rfl⟩ .nil

end View

end Lua

end VaultConsole
