import VaultConsole.Lua.Heap
import VaultConsole.Lua.Storage

/-!
# Growth of heaps

Whatever a script does, the functions, host errors and written-out functions of a heap stay where they are,
what was printed, logged and asked of the platform stays so, the table of globals and the limit on memory stay
the same, and tables find all that they keep. `Heap.Grows` says so of a heap and a later one; each change that
a library function can make is shown to be such a growth beside it.
-/

namespace VaultConsole.Lua

/-- Whether every table of a heap finds all that it keeps. -/
def Heap.Lawful (h : Heap) : Prop := ∀ r, (h.table r).Lawful

/-- What a heap keeps of an earlier one. -/
structure Heap.Grows (h h' : Heap) : Prop where
  closures : h.closures.toList <+: h'.closures.toList
  failures : h.failures.toList <+: h'.failures.toList
  dumped : h.dumped.toList <+: h'.dumped.toList
  printed : h.printed.latestFirst <:+ h'.printed.latestFirst
  logged : h.logged <:+ h'.logged
  calls : h.calls <:+ h'.calls
  globals : h'.globals = h.globals
  limit : h'.limit? = h.limit?
  tables : h.Lawful → h'.Lawful

namespace Heap

theorem Grows.refl (h : Heap) : h.Grows h :=
  ⟨List.prefix_rfl, List.prefix_rfl, List.prefix_rfl, List.suffix_rfl, List.suffix_rfl,
    List.suffix_rfl, rfl, rfl, id⟩

theorem Grows.trans {h h' h'' : Heap} (a : h.Grows h') (b : h'.Grows h'') : h.Grows h'' :=
  ⟨a.closures.trans b.closures, a.failures.trans b.failures, a.dumped.trans b.dumped,
    a.printed.trans b.printed, a.logged.trans b.logged, a.calls.trans b.calls, b.globals.trans a.globals,
    b.limit.trans a.limit, b.tables ∘ a.tables⟩

variable (h : Heap)

/-! ## Tables, cells and searches -/

/-- One table is changed. -/
theorem Lawful.modifyTable {h : Heap} (lawful : h.Lawful) (r : Nat) {f : Table → Table}
    (keeps : ∀ t : Table, t.Lawful → (f t).Lawful) : (h.modifyTable r f).Lawful := by
  intro r'
  have here := lawful r'
  simp only [table, Heap.modifyTable, Array.getD_eq_getD_getElem?, Array.getElem?_modify] at here ⊢
  split
  · cases there : h.tables[r']? with
    | none => rwa [there] at here
    | some t =>
      rw [there] at here
      exact keeps t here
  · exact here

/-- One table is added. -/
theorem Lawful.newTable {h : Heap} (lawful : h.Lawful) {t : Table} (new : t.Lawful) :
    (h.newTable t).1.Lawful := by
  intro r
  have here := lawful r
  simp only [table, Heap.newTable, Array.getD_eq_getD_getElem?, Array.getElem?_push] at here ⊢
  split
  · exact new
  · exact here

theorem grows_modifyTable (r : Nat) {f : Table → Table} (keeps : ∀ t : Table, t.Lawful → (f t).Lawful) :
    h.Grows (h.modifyTable r f) :=
  { Grows.refl h with tables := fun lawful => lawful.modifyTable r keeps }

theorem grows_newTable {t : Table} (new : t.Lawful) : h.Grows (h.newTable t).1 :=
  { Grows.refl h with tables := fun lawful => lawful.newTable new }

theorem grows_newCell (v : Value) : h.Grows (h.newCell v).1 := { Grows.refl h with }

theorem grows_setCell (r : Nat) (v : Value) : h.Grows (h.setCell r v) := { Grows.refl h with }

theorem grows_newMatcher (m : Matcher) : h.Grows (h.newMatcher m).1 := { Grows.refl h with }

theorem grows_streams (s : Streams) : h.Grows { h with streams := s } := { Grows.refl h with }

theorem grows_rawSet (r : Nat) {key : Value} (isKey : Table.IsKey key) (value : Value) :
    h.Grows (h.rawSet r key value) :=
  { Grows.refl h with tables := fun lawful => lawful.modifyTable r fun _ kept => kept.set isKey value }

/-! ## What is added at the end -/

theorem grows_newClosure (c : Closure) : h.Grows (h.newClosure c).1 :=
  { Grows.refl h with
    closures := by
      simp only [newClosure, Array.toList_push]
      exact List.prefix_append _ _ }

theorem grows_newFailure (e : ScriptError) : h.Grows (h.newFailure e).1 :=
  { Grows.refl h with
    failures := by
      simp only [newFailure, Array.toList_push]
      exact List.prefix_append _ _ }

theorem grows_newDumped (p : Proto) : h.Grows (h.newDumped p) :=
  { Grows.refl h with
    dumped := by
      simp only [newDumped, Array.toList_push]
      exact List.prefix_append _ _ }

theorem grows_print (line : String) : h.Grows (h.print line) :=
  { Grows.refl h with printed := List.suffix_cons _ _ }

theorem grows_log (text : String) : h.Grows (h.log text) :=
  { Grows.refl h with logged := List.suffix_cons _ _ }

theorem grows_record (c : PlatformCall) : h.Grows (h.record c) :=
  { Grows.refl h with calls := List.suffix_cons _ _ }

theorem grows_note (texts : List String) : h.Grows (h.note texts) := by
  unfold note
  split
  · exact .refl h
  · exact { Grows.refl h with logged := List.suffix_append _ _ }

end Heap

end VaultConsole.Lua
