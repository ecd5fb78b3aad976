import Std.Data.String.ToInt
import VaultConsole.Proofs.ByteOrder
import VaultConsole.Proofs.Export.Arrays
import VaultConsole.Proofs.Export.Entries
import VaultConsole.Proofs.Json.Layouts
import VaultConsole.Proofs.Json.Tokens

/-!
# The JSON of values

Both layouts of a value are texts of one tree, and of no other, that shows the value part by part (`Depicts`): nil
and numbers that are not finite are null, what is opaque is the name of its type, and the keys of an object come
in the order of their bytes (`results_faithful`). Two values have the same JSON just if they are the same up to
what the tree does not tell (`Alike`), where floating-point numbers are told apart by their tokens.

The keys of a value are taken to be sorted (`Ordered`), as they are in every value that leaves a session
(`ordered_exportWithin`).
-/

namespace VaultConsole

open Decimal Json

namespace ScriptValue

/-! ## Values with sorted keys -/

mutual

/-- Whether the keys of every object in a value are sorted. -/
def Ordered : ScriptValue → Prop
  | .array vs => OrderedItems vs
  | .object es => Ascending es ∧ OrderedEntries es
  | _ => True

/-- Whether those in items are. -/
def OrderedItems : List ScriptValue → Prop
  | [] => True
  | v :: vs => Ordered v ∧ OrderedItems vs

/-- Whether those in entries are. -/
def OrderedEntries : List (String × ScriptValue) → Prop
  | [] => True
  | (_, v) :: es => Ordered v ∧ OrderedEntries es

end

theorem orderedItems_iff {vs : List ScriptValue} : OrderedItems vs ↔ ∀ v ∈ vs, v.Ordered := by
  induction vs with
  | nil => simp [OrderedItems]
  | cons v vs ih => rw [OrderedItems, ih, List.forall_mem_cons]

theorem orderedEntries_iff {es : List (String × ScriptValue)} : OrderedEntries es ↔ ∀ e ∈ es, e.2.Ordered := by
  induction es with
  | nil => simp [OrderedEntries]
  | cons e es ih => rw [OrderedEntries, ih, List.forall_mem_cons]

/-- Items are sorted inside if those that they replace are, and the values that are put in their places. -/
theorem ordered_foldl_putItem {entries : List (Lua.Value × ScriptValue)} (ordered : ∀ e ∈ entries, e.2.Ordered)
    {items : Array ScriptValue} (start : ∀ v ∈ items.toList, v.Ordered) :
    ∀ v ∈ (entries.foldl Lua.putItem items).toList, v.Ordered := by
  induction entries generalizing items with
  | nil => exact start
  | cons e entries ih =>
    rw [List.forall_mem_cons] at ordered
    rw [List.foldl_cons]
    refine ih ordered.2 ?_
    rw [Lua.putItem]
    split
    · intro w member
      rw [Array.toList_setIfInBounds] at member
      obtain there | rfl := List.mem_or_eq_of_mem_set member
      · exact start w there
      · exact ordered.1
    · exact start

/-- **What leaves a session has sorted keys.** -/
theorem ordered_exportWithin (view : Lua.View) (levels : Nat) (v : Lua.Value) :
    (view.exportWithin levels v).Ordered := by
  induction levels generalizing v with
  | zero => cases v <;> exact trivial
  | succ levels ih =>
    cases v with
    | table r =>
      have inside : ∀ e ∈ (view.entries r).map fun f => (f.1, view.exportWithin levels f.2), e.2.Ordered := by
        intro e member
        obtain ⟨f, -, rfl⟩ := List.mem_map.1 member
        exact ih f.2
      rw [Lua.View.exportWithin, Lua.exportEntries]
      split
      · refine orderedItems_iff.2 (ordered_foldl_putItem inside fun v member => ?_)
        rw [Array.toList_replicate] at member
        rw [List.eq_of_mem_replicate member]
        exact trivial
      · refine ⟨ascending_sortEntries _, orderedEntries_iff.2 fun e member => ?_⟩
        obtain ⟨f, there, same⟩ := List.mem_map.1 (mem_sortEntries.1 member).mem
        rw [← (Prod.mk.inj same).2]
        exact inside f there
    | _ => exact trivial

/-! ## The tree of a value -/

/-- Entries whose keys are in strictly ascending order of their bytes. -/
def InByteOrder (ts : List (String × Json)) : Prop :=
  ts.Pairwise fun a b => a.1.toUTF8.toList < b.1.toUTF8.toList

mutual

/-- The tree that shows a value. -/
inductive Depicts : ScriptValue → Json → Prop where
  | nil : Depicts .nil .null
  | boolean (b : Bool) : Depicts (.boolean b) (.bool b)
  | integer {n : Int} {token : String} : token.toInt? = some n → Depicts (.integer n) (.number token)
  | number {bits : UInt64} {x : Decimal.Dyadic} : Binary64.ofBits bits = .finite x →
    Depicts (.number bits) (.number (FloatText.json.render bits))
  | noNumber {bits : UInt64} : (∀ x, Binary64.ofBits bits ≠ .finite x) → Depicts (.number bits) .null
  | string (s : String) : Depicts (.string s) (.string s)
  | array {vs : List ScriptValue} {ts : List Json} : DepictsItems vs ts → Depicts (.array vs) (.array ts)
  | object {es : List (String × ScriptValue)} {ts : List (String × Json)} : DepictsEntries es ts → InByteOrder ts →
    Depicts (.object es) (.object ts)
  | opaqueType (type : String) : Depicts (.opaqueType type) (.string type)

/-- The trees that show items, in their order. -/
inductive DepictsItems : List ScriptValue → List Json → Prop where
  | nil : DepictsItems [] []
  | cons {v : ScriptValue} {t : Json} {vs : List ScriptValue} {ts : List Json} : Depicts v t →
    DepictsItems vs ts → DepictsItems (v :: vs) (t :: ts)

/-- The trees that show entries, under their keys. -/
inductive DepictsEntries : List (String × ScriptValue) → List (String × Json) → Prop where
  | nil : DepictsEntries [] []
  | cons {key : String} {v : ScriptValue} {t : Json} {es : List (String × ScriptValue)}
    {ts : List (String × Json)} : Depicts v t → DepictsEntries es ts →
    DepictsEntries ((key, v) :: es) ((key, t) :: ts)

end

theorem keys_toJsonEntries (es : List (String × ScriptValue)) :
    (toJsonEntries es).map Prod.fst = es.map Prod.fst := by
  induction es with
  | nil => rfl
  | cons e es ih => rw [toJsonEntries, List.map_cons, List.map_cons, ih]

theorem inByteOrder_toJsonEntries {es : List (String × ScriptValue)} (ascending : Ascending es) :
    InByteOrder (toJsonEntries es) := by
  have keys : (es.map Prod.fst).Pairwise (· < ·) := List.pairwise_map.2 ascending
  rw [← keys_toJsonEntries, List.pairwise_map] at keys
  exact keys.imp Text.Utf8.toUTF8_lt

mutual

/-- What a value is turned into shows it. -/
theorem depicts_toJson (v : ScriptValue) (ordered : v.Ordered) : Depicts v v.toJson := by
  match v, ordered with
  | .nil, _ => exact .nil
  | .boolean b, _ => exact .boolean b
  | .integer n, _ => exact .integer (Int.toInt?_repr n)
  | .number bits, _ =>
    rw [toJson]
    split
    · rename_i finite
      exact .number finite
    · rename_i other
      exact .noNumber other
  | .string s, _ => exact .string s
  | .array vs, ordered =>
    rw [Ordered] at ordered
    exact .array (depicts_toJsonItems vs ordered)
  | .object es, ordered =>
    rw [Ordered] at ordered
    exact .object (depicts_toJsonEntries es ordered.2) (inByteOrder_toJsonEntries ordered.1)
  | .opaqueType type, _ => exact .opaqueType type

theorem depicts_toJsonItems (vs : List ScriptValue) (ordered : OrderedItems vs) :
    DepictsItems vs (toJsonItems vs) := by
  match vs, ordered with
  | [], _ => exact .nil
  | v :: vs, ordered =>
    rw [OrderedItems] at ordered
    exact .cons (depicts_toJson v ordered.1) (depicts_toJsonItems vs ordered.2)

theorem depicts_toJsonEntries (es : List (String × ScriptValue)) (ordered : OrderedEntries es) :
    DepictsEntries es (toJsonEntries es) := by
  match es, ordered with
  | [], _ => exact .nil
  | (key, v) :: es, ordered =>
    rw [OrderedEntries] at ordered
    exact .cons (depicts_toJson v ordered.1) (depicts_toJsonEntries es ordered.2)

end

mutual

/-- The numbers of what a value is turned into are numbers of JSON. -/
theorem wellformed_toJson (v : ScriptValue) : v.toJson.Wellformed := by
  match v with
  | .nil => exact trivial
  | .boolean b => exact trivial
  | .integer n => exact isNumber_toString n
  | .number bits =>
    rw [toJson]
    split
    · rename_i finite
      exact (isNumber_render finite).1
    · exact trivial
  | .string s => exact trivial
  | .array vs => exact wellformed_toJsonItems vs
  | .object es => exact wellformed_toJsonEntries es
  | .opaqueType type => exact trivial

theorem wellformed_toJsonItems (vs : List ScriptValue) : WellformedItems (toJsonItems vs) := by
  match vs with
  | [] => exact trivial
  | v :: vs => exact ⟨wellformed_toJson v, wellformed_toJsonItems vs⟩

theorem wellformed_toJsonEntries (es : List (String × ScriptValue)) :
    WellformedEntries (toJsonEntries es) := by
  match es with
  | [] => exact trivial
  | (_, v) :: es => exact ⟨wellformed_toJson v, wellformed_toJsonEntries es⟩

end

/-! ## What the tree does not tell -/

mutual

/-- A value with the names of types as texts, and nil for what is no number. -/
def told : ScriptValue → ScriptValue
  | .number bits =>
    match Binary64.ofBits bits with
    | .finite _ => .number bits
    | _ => .nil
  | .array vs => .array (toldItems vs)
  | .object es => .object (toldEntries es)
  | .opaqueType type => .string type
  | v => v

def toldItems : List ScriptValue → List ScriptValue
  | [] => []
  | v :: vs => told v :: toldItems vs

def toldEntries : List (String × ScriptValue) → List (String × ScriptValue)
  | [] => []
  | (key, v) :: es => (key, told v) :: toldEntries es

end

mutual

/-- Whether two values are equal, where floating-point numbers are if their tokens are. -/
def EqualByTokens : ScriptValue → ScriptValue → Prop
  | .number b, .number b' => FloatText.json.render b = FloatText.json.render b'
  | .array vs, .array ws => ItemsEqualByTokens vs ws
  | .object es, .object fs => EntriesEqualByTokens es fs
  | v, w => v = w

def ItemsEqualByTokens : List ScriptValue → List ScriptValue → Prop
  | v :: vs, w :: ws => EqualByTokens v w ∧ ItemsEqualByTokens vs ws
  | vs, ws => vs = ws

def EntriesEqualByTokens : List (String × ScriptValue) → List (String × ScriptValue) → Prop
  | (key, v) :: es, (key', w) :: fs => key = key' ∧ EqualByTokens v w ∧ EntriesEqualByTokens es fs
  | es, fs => es = fs

end

/-- Whether two values are equal but for what their trees do not tell. -/
def Alike (v w : ScriptValue) : Prop := EqualByTokens v.told w.told

/-- What a value is turned into, and what is told of it. -/
theorem told_cases (v : ScriptValue) :
    (v.toJson = .null ∧ v.told = .nil) ∨
    (∃ b, v.toJson = .bool b ∧ v.told = .boolean b) ∨
    (∃ n, v.toJson = .number (toString n) ∧ v.told = .integer n) ∨
    (∃ bits x, Binary64.ofBits bits = .finite x ∧ v.toJson = .number (FloatText.json.render bits) ∧
      v.told = .number bits) ∨
    (∃ s, v.toJson = .string s ∧ v.told = .string s) ∨
    (∃ vs, v = .array vs) ∨ ∃ es, v = .object es := by
  cases v with
  | nil => exact .inl ⟨rfl, rfl⟩
  | boolean b => exact .inr (.inl ⟨b, rfl, rfl⟩)
  | integer n => exact .inr (.inr (.inl ⟨n, rfl, rfl⟩))
  | number bits =>
    rw [toJson, told]
    cases shape : Binary64.ofBits bits with
    | finite x => exact .inr (.inr (.inr (.inl ⟨bits, x, shape, rfl, rfl⟩)))
    | nan => exact .inl ⟨rfl, rfl⟩
    | infinite => exact .inl ⟨rfl, rfl⟩
  | string s => exact .inr (.inr (.inr (.inr (.inl ⟨s, rfl, rfl⟩))))
  | array vs => exact .inr (.inr (.inr (.inr (.inr (.inl ⟨vs, rfl⟩)))))
  | object es => exact .inr (.inr (.inr (.inr (.inr (.inr ⟨es, rfl⟩)))))
  | opaqueType type => exact .inr (.inr (.inr (.inr (.inl ⟨type, rfl, rfl⟩))))

/-- Values that are not both arrays or both objects. -/
theorem toJson_eq_iff_of_leaf {v w : ScriptValue} (arrays : ∀ vs ws, v = .array vs → w ≠ .array ws)
    (objects : ∀ es fs, v = .object es → w ≠ .object fs) : v.toJson = w.toJson ↔ Alike v w := by
  rw [Alike]
  obtain ⟨tree, rest⟩ | ⟨b, tree, rest⟩ | ⟨n, tree, rest⟩ | ⟨bits, x, finite, tree, rest⟩ | ⟨s, tree, rest⟩ |
    ⟨vs, rfl⟩ | ⟨es, rfl⟩ := told_cases v <;>
  obtain ⟨tree', rest'⟩ | ⟨b', tree', rest'⟩ | ⟨n', tree', rest'⟩ | ⟨bits', x', finite', tree', rest'⟩ |
    ⟨s', tree', rest'⟩ | ⟨ws, rfl⟩ | ⟨fs, rfl⟩ := told_cases w <;>
  simp [*, toJson, told, EqualByTokens]
  · exact toString_ne_render n finite'
  · exact (toString_ne_render n' finite).symm
  · exact absurd rfl (arrays vs ws rfl)
  · exact absurd rfl (objects es fs rfl)

mutual

/-- **Values are turned into the same tree just if they are alike.** -/
theorem toJson_eq_iff (v w : ScriptValue) : v.toJson = w.toJson ↔ Alike v w := by
  cases v with
  | array vs =>
    cases w with
    | array ws =>
      have items := toJsonItems_eq_iff vs ws
      simp only [toJson, Alike, told, EqualByTokens, Json.array.injEq, items]
    | _ => exact toJson_eq_iff_of_leaf (by simp) (by simp)
  | object es =>
    cases w with
    | object fs =>
      have entries := toJsonEntries_eq_iff es fs
      simp only [toJson, Alike, told, EqualByTokens, Json.object.injEq, entries]
    | _ => exact toJson_eq_iff_of_leaf (by simp) (by simp)
  | _ => exact toJson_eq_iff_of_leaf (by simp) (by simp)

theorem toJsonItems_eq_iff (vs ws : List ScriptValue) :
    toJsonItems vs = toJsonItems ws ↔ ItemsEqualByTokens (toldItems vs) (toldItems ws) := by
  match vs, ws with
  | [], [] => simp [toJsonItems, toldItems, ItemsEqualByTokens]
  | [], w :: ws => simp [toJsonItems, toldItems, ItemsEqualByTokens]
  | v :: vs, [] => simp [toJsonItems, toldItems, ItemsEqualByTokens]
  | v :: vs, w :: ws =>
    have first := toJson_eq_iff v w
    have later := toJsonItems_eq_iff vs ws
    rw [Alike] at first
    simp only [toJsonItems, toldItems, ItemsEqualByTokens, List.cons.injEq, first, later]

theorem toJsonEntries_eq_iff (es fs : List (String × ScriptValue)) :
    toJsonEntries es = toJsonEntries fs ↔ EntriesEqualByTokens (toldEntries es) (toldEntries fs) := by
  match es, fs with
  | [], [] => simp [toJsonEntries, toldEntries, EntriesEqualByTokens]
  | [], _ :: fs => simp [toJsonEntries, toldEntries, EntriesEqualByTokens]
  | (key, v) :: es, [] => simp [toJsonEntries, toldEntries, EntriesEqualByTokens]
  | (key, v) :: es, (key', w) :: fs =>
    have first := toJson_eq_iff v w
    have later := toJsonEntries_eq_iff es fs
    rw [Alike] at first
    simp only [toJsonEntries, toldEntries, EntriesEqualByTokens, List.cons.injEq, Prod.mk.injEq, first, later,
      and_assoc]

end

/-! ## The texts of values -/

/-- Arrays and objects, which are shown in JSON. -/
def IsStructured (v : ScriptValue) : Prop := (∃ vs, v = .array vs) ∨ ∃ es, v = .object es

theorem display_of_isStructured {v : ScriptValue} (structured : v.IsStructured) : v.display = v.toJson.indented := by
  obtain ⟨vs, rfl⟩ | ⟨es, rfl⟩ := structured
  · rfl
  · rfl

end ScriptValue

open ScriptValue

theorem Result.wellformed_toJson (r : Result) : r.toJson.Wellformed := by
  cases r with
  | output text => exact ⟨trivial, trivial, trivial⟩
  | value v => exact ⟨trivial, v.wellformed_toJson, trivial⟩

theorem Result.render_eq_none_iff (r : Result) : r.render = none ↔ r = .value .nil := by
  cases r with
  | output text => simp [render]
  | value v => cases v <;> simp [render, isNil]

/-- **JSON is faithful.** Both layouts of a value are texts of the tree that shows it, and of no other; values
have the same JSON just if they are alike; and only nil shows nothing. -/
theorem results_faithful :
    (∀ v : ScriptValue, v.Ordered → ∃ t, Depicts v t ∧
      (∀ u, IsTextOf (Result.value v).toJson.compact u ↔
        u = .object [("kind", .string "value"), ("value", t)]) ∧
      (v.IsStructured → ∀ u, IsTextOf v.display u ↔ u = t)) ∧
    (∀ s u, IsTextOf (Result.output s).toJson.compact u ↔
      u = .object [("kind", .string "output"), ("value", .string s)]) ∧
    (∀ v w : ScriptValue, (Result.value v).toJson.compact = (Result.value w).toJson.compact ↔ Alike v w) ∧
    (∀ v w : ScriptValue, v.IsStructured → w.IsStructured → (v.display = w.display ↔ Alike v w)) ∧
    (∀ r : Result, r.render = none ↔ r = .value .nil) ∧
    (∀ s, (Result.value (.string s)).render = some s) ∧ ∀ s, (Result.output s).render = some s := by
  refine ⟨fun v ordered => ⟨v.toJson, v.depicts_toJson ordered, ?_, ?_⟩, ?_, ?_, ?_, ?_, ?_, ?_⟩
  · exact isTextOf_write_iff Setting.Json.isBlank_compact (Result.wellformed_toJson (.value v))
  · intro structured
    rw [display_of_isStructured structured]
    exact isTextOf_write_iff Setting.Json.isBlank_indented v.wellformed_toJson
  · exact fun s => isTextOf_write_iff Setting.Json.isBlank_compact (Result.wellformed_toJson (.output s))
  · intro v w
    rw [← toJson_eq_iff]
    refine (write_inj Setting.Json.isBlank_compact (Result.wellformed_toJson (.value v))
      (Result.wellformed_toJson (.value w))).trans ?_
    simp [Result.toJson]
  · intro v w structured structured'
    rw [display_of_isStructured structured, display_of_isStructured structured', ← toJson_eq_iff]
    exact write_inj Setting.Json.isBlank_indented v.wellformed_toJson w.wellformed_toJson
  · exact Result.render_eq_none_iff
  · exact fun _ => rfl
  · exact fun _ => rfl

/-- Of a value that is nested, with a number that is not finite and a function in it. -/
theorem results_faithful_nested :
    (ScriptValue.object [("a", .array [.number 0x7FF8000000000000, .opaqueType "function"]), ("b", .nil)]).Ordered ∧
    ∃ t, Depicts (.object [("a", .array [.number 0x7FF8000000000000, .opaqueType "function"]), ("b", .nil)]) t ∧
      ∀ u, IsTextOf
        "\x7b\n  \"a\": [\n    null,\n    \"function\"\n  ],\n  \"b\": null\n\x7d" u ↔ u = t := by
  have ordered : (ScriptValue.object [("a", .array [.number 0x7FF8000000000000, .opaqueType "function"]),
      ("b", .nil)]).Ordered :=
    ⟨List.pairwise_pair.2 (by decide), ⟨trivial, trivial, trivial⟩, trivial, trivial⟩
  have shown : (ScriptValue.object [("a", .array [.number 0x7FF8000000000000, .opaqueType "function"]),
      ("b", .nil)]).display =
        "\x7b\n  \"a\": [\n    null,\n    \"function\"\n  ],\n  \"b\": null\n\x7d" := by
    decide +kernel
  obtain ⟨t, depicts, -, indented⟩ := results_faithful.1 _ ordered
  refine ⟨ordered, t, depicts, ?_⟩
  rw [← shown]
  exact indented (.inr ⟨_, rfl⟩)

end VaultConsole
