import VaultConsole.Proofs.Tables

/-!
# The globals of a new session

The table of globals consists of named values, so a new session finds the functions of the language under
their names, and the namespace in which it finds what it tells about itself.
-/

namespace VaultConsole.Lua

namespace Library

/-! ## The heap of a new session -/

theorem solid_named {α : Type} (build : α → Builtin) (fs : List (String × α)) :
    ∀ e ∈ named build fs, e.2.isNil = false := by
  intro e there
  obtain ⟨f, -, rfl⟩ := List.mem_map.1 there
  rfl

theorem names_addTables (h : Heap) (libraries : List (String × List (String × Value))) :
    (addTables h libraries).2.map Prod.fst = libraries.map Prod.fst := by
  induction libraries generalizing h with
  | nil => rfl
  | cons library libraries ih =>
    simp only [addTables, List.map_cons, ih]

theorem solid_addTables (h : Heap) (libraries : List (String × List (String × Value))) :
    ∀ e ∈ (addTables h libraries).2, e.2.isNil = false := by
  induction libraries generalizing h with
  | nil => exact fun e there => nomatch there
  | cons library libraries ih =>
    intro e there
    simp only [addTables, List.mem_cons] at there
    obtain rfl | there := there
    · rfl
    · exact ih _ e there

theorem getElem?_push_of_some {tables : Array Table} {r : Nat} {t : Table} (there : tables[r]? = some t)
    (t' : Table) : (tables.push t')[r]? = some t := by
  obtain ⟨inside, -⟩ := Array.getElem?_eq_some_iff.1 there
  rw [Array.getElem?_push_lt inside, ← there, Array.getElem?_eq_getElem inside]

/-- Added tables leave the others in their places. -/
theorem getElem?_addTables {h : Heap} {r : Nat} {t : Table} (there : h.tables[r]? = some t)
    (libraries : List (String × List (String × Value))) : (addTables h libraries).1.tables[r]? = some t := by
  induction libraries generalizing h with
  | nil => exact there
  | cons library libraries ih => exact ih (h := (addTable h library.2).1) (getElem?_push_of_some there _)

/-- The added tables are found under their names. -/
theorem exists_addTables (h : Heap) (libraries : List (String × List (String × Value))) :
    ∀ library ∈ libraries, ∃ r, h.tables.size ≤ r ∧ (library.1, .table r) ∈ (addTables h libraries).2 ∧
      (addTables h libraries).1.tables[r]? = some (tableOf library.2) := by
  induction libraries generalizing h with
  | nil => exact fun library there => nomatch there
  | cons first libraries ih =>
    intro library there
    obtain rfl | later := List.mem_cons.1 there
    · exact ⟨h.tables.size, Nat.le_refl _, List.mem_cons_self,
        getElem?_addTables (h := (addTable h library.2).1) Array.getElem?_push_size libraries⟩
    · obtain ⟨r, beyond, listed, found⟩ := ih (addTable h first.2).1 library later
      have pushed : (addTable h first.2).1.tables.size = h.tables.size + 1 := Array.size_push _
      exact ⟨r, by omega, List.mem_cons_of_mem _ listed, found⟩

/-- The tables of a new session: the globals come first, and they lead to two tables one after the other, the
functions on the vault and the namespace in which a session finds what it tells about itself. -/
theorem startHeap_tables (limit? : Option Nat) :
    ∃ (tables : Array Table) (a b c d e : Table) (loaded : Nat) (f : Table → Table) (h : Heap) (package : Nat),
      loaded = 1 ∧ 1 < tables.size ∧
      (2 ≤ h.tables.size ∧
        ∀ (r : Nat) (t : Table), (addTables h libraries).1.tables[r]? = some t → tables[r]? = some t) ∧
      (startHeap limit?).tables = Array.modify (Array.modify
        (((((((tables.push (tableOf (named .host appFunctions))).push (tableOf aboutEntries)).push a).push
          b).push c).push d).push e) loaded f) 0
        (fun _ => tableOf (named .base baseFunctions ++
          [("_G", .table 0), ("_VERSION", .text languageVersion)] ++
          ((addTables h libraries).2 ++ [("package", .table package)]) ++ [("app", .table tables.size)] ++
          named .host hostFunctions ++
          [(About.globalName, .table (tables.push (tableOf (named .host appFunctions))).size)])) := by
  unfold startHeap
  simp only [Heap.modifyTable, addTable, Heap.newTable]
  refine ⟨_, _, _, _, _, _, _, _, _, _, rfl, ?_, ⟨?_, ?_⟩, rfl⟩
  · simp only [Array.size_push]
    omega
  · exact Nat.le_refl 2
  · intro r t there
    exact getElem?_push_of_some (getElem?_push_of_some (getElem?_push_of_some there _) _) _

/-- The globals of a new session: the functions of the language without a table are among them, those of the
host, the functions on the vault, the namespace, and the tables of functions. -/
theorem exists_globals (limit? : Option Nat) :
    ∃ globals app about, ((startHeap limit?).table 0).IsRecord globals ∧
      (named .base baseFunctions ⊆ globals ∧ named .host hostFunctions ⊆ globals) ∧
      (("app", .table app) ∈ globals ∧ (startHeap limit?).table app = tableOf (named .host appFunctions)) ∧
      (About.globalName, .table about) ∈ globals ∧ (startHeap limit?).table about = tableOf aboutEntries ∧
      ∀ library ∈ libraries, ∃ r, (library.1, .table r) ∈ globals ∧
        (startHeap limit?).table r = tableOf library.2 := by
  obtain ⟨tables, a, b, c, d, e, loaded, f, h, package, rfl, spared, ⟨later, kept⟩, same⟩ :=
    startHeap_tables limit?
  let globals := named .base baseFunctions ++ ([("_G", .table 0), ("_VERSION", .text languageVersion)] ++
    ((addTables h libraries).2 ++ ([("package", .table package), ("app", .table tables.size)] ++
      (named .host hostFunctions ++
        [(About.globalName, .table (tables.push (tableOf (named .host appFunctions))).size)]))))
  have first : (startHeap limit?).table 0 = tableOf globals := by
    rw [Heap.table, same, Array.getD_eq_getD_getElem?, Array.getElem?_modify, if_pos rfl,
      Array.getElem?_eq_getElem (by simp only [Array.size_modify, Array.size_push]; omega)]
    simp only [Option.map_some, Option.getD_some, List.append_assoc, List.cons_append, List.nil_append, globals]
  -- Only the first two tables are filled anew; the others stay in their places.
  have placed : ∀ {r : Nat} {t : Table}, 1 < r → (((((((tables.push (tableOf (named .host appFunctions))).push
      (tableOf aboutEntries)).push a).push b).push c).push d).push e)[r]? = some t →
      (startHeap limit?).table r = t := by
    intro r t later there
    rw [Heap.table, same, Array.getD_eq_getD_getElem?, Array.getElem?_modify, if_neg (by omega),
      Array.getElem?_modify, if_neg (by omega), there]
    rfl
  have listed : ∀ e ∈ [("_G", Value.table 0), ("_VERSION", .text languageVersion)], e.2.isNil = false := by
    decide
  refine ⟨globals, tables.size, (tables.push (tableOf (named .host appFunctions))).size, ?_, ⟨?_, ?_⟩, ⟨?_, ?_⟩,
    ?_, ?_, ?_⟩
  · rw [first]
    refine Table.isRecord_tableOf ?_ ?_
    · simp only [globals, List.map_append, List.map_cons, List.map_nil, names_addTables]
      decide
    · intro e there
      simp only [globals, List.mem_append] at there
      obtain there | there | there | there | there | there := there
      · exact solid_named .base baseFunctions e there
      · exact listed e there
      · exact solid_addTables h libraries e there
      · simp only [List.mem_cons, List.not_mem_nil, or_false] at there
        obtain rfl | rfl := there <;> rfl
      · exact solid_named .host hostFunctions e there
      · rw [List.mem_singleton.1 there]
        rfl
  · exact fun e there => List.mem_append_left _ there
  · intro e there
    simp only [globals, List.mem_append, there, true_or, or_true]
  · simp only [globals, List.mem_append, List.mem_cons, true_or, or_true]
  · refine placed spared ?_
    grind
  · simp only [globals, List.mem_append, List.mem_singleton, or_true]
  · refine placed (by rw [Array.size_push]; omega) ?_
    grind
  · intro library there
    obtain ⟨r, beyond, listed, found⟩ := exists_addTables h libraries library there
    refine ⟨r, ?_, placed (by omega) ?_⟩
    · simp only [globals, List.mem_append, listed, true_or, or_true]
    · have here := kept r _ found
      grind

end Library

end VaultConsole.Lua
