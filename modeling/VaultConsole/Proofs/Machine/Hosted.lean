import Mathlib.Data.List.Forall2
import VaultConsole.Lua.Session
import VaultConsole.Proofs.Machine.Actions
import VaultConsole.Proofs.Tables

/-!
# Functions of the host

A machine that calls a host function carries it out in one step (`step_of_calls`), and where the host does not
let it wait, the function goes on with what the host answers at that moment (`runNative_of_ask`). A description
comes as a table with its fields (`Heap.Describes`), and descriptions come as a table of such tables
(`Heap.Enumerates`).
-/

namespace VaultConsole.Lua

namespace Machine

variable {m m' : Machine}

/-! ## Calls -/

/-- A machine as it waits for the results of a call that the running function makes. -/
def waiting (m : Machine) (line : Nat) (name : CallName) (want : Want) : Machine :=
  match want with
  | .tail =>
    { m with focus := .done, stack := .caller m.act line name .all m.room :: .return :: m.stack, act := default }
  | want =>
    { m with focus := .done, stack := .caller m.act line name want m.room :: m.stack, act := default }

/-- The ways in which a machine calls a value with arguments; last comes the machine as it waits for the
results. A library function, a metamethod, a coroutine or the host calls by `enter`, and code calls by an
expression or by a generic loop, for the first time or again. -/
inductive Calls : Machine → Value → List Value → Machine → Prop where
  | enter (m : Machine) (f : Value) (args : List Value) :
    Calls { m with focus := .enter f args } f args { m with focus := .done }
  | direct (m : Machine) (f : Value) (args : List Value) (line : Nat) (name : CallName) (want : Want) :
    Calls { m with focus := .call f args line name want } f args (m.waiting line name want)
  | code (m : Machine) (f : Value) (args : List Value) (line : Nat) (name : CallName) (want : Want) :
    Calls { m with focus := .values args, stack := .call f name line want :: m.stack } f args
      (m.waiting line name want)
  | first (m : Machine) (f : Value) (vs : List Value) (vars : List LocalVar) (body : List Step) (line : Nat)
      (iterator : vs.getD 0 .nil = f) (closable : m.isClosable (vs.getD 3 .nil) = true) :
    Calls { m with focus := .values vs, stack := .startGeneric vars body line :: m.stack } f
      [vs.getD 1 .nil, vs.getD 2 .nil]
      (waiting
        { m with
          stack := .iterate f (vs.getD 1 .nil) vars body line ::
            if (vs.getD 3 .nil).isTruthy then .closing (vs.getD 3 .nil) line :: m.stack else m.stack }
        line .iterator .all)
  | again (m : Machine) (f state control : Value) (vars : List LocalVar) (body : List Step) (line : Nat) :
    Calls { m with focus := .done, stack := .genericLoop f state control vars body line :: m.stack } f
      [state, control]
      (waiting { m with stack := .iterate f state vars body line :: m.stack } line .iterator .all)

/-- What is called is entered above the machine as it waits, unless it is a function of the language, which may
take the place of its caller. -/
theorem step_eq_enter (host : Host) {f : Value} {args : List Value} (calls : m.Calls f args m')
    (other : ∀ r, f ≠ .closure r) : m.step host = enter host maxDepth m' f args := by
  -- Only a function of the language is called in place of its caller.
  have called : ∀ (m : Machine) (args : List Value) (line : Nat) (name : CallName) (want : Want),
      call host { m with focus := .done } f args line name want =
        enter host maxDepth (m.waiting line name want) f args := by
    intro m args line name want
    cases want with
    | tail =>
      cases f with
      | closure r => exact absurd rfl (other r)
      | _ => rfl
    | _ => rfl
  cases calls with
  | enter m => rfl
  | direct m _ _ line name want => exact called m args line name want
  | code m _ _ line name want => exact called m args line name want
  | first m _ vs vars body line iterator closable =>
    have started : step host { m with focus := .values vs, stack := .startGeneric vars body line :: m.stack } =
        if !m.isClosable (vs.getD 3 .nil) then
          failClosing { m with focus := .done } "(for state)".toUTF8 line
        else
          iterate host
            { m with
              focus := .done
              stack := if (vs.getD 3 .nil).isTruthy then .closing (vs.getD 3 .nil) line :: m.stack else m.stack }
            (vs.getD 0 .nil) (vs.getD 1 .nil) (vs.getD 2 .nil) vars body line := rfl
    rw [started, closable, iterator]
    rfl
  | again m _ state control vars body line => rfl

/-- A host function that is called is carried out. -/
theorem step_of_calls (host : Host) {f : HostFunction} {args : List Value}
    (calls : m.Calls (.builtin (.host f)) args m') :
    m.step host = m'.runNative host (.builtin (.host f)) (Library.host f args) := by
  rw [step_eq_enter host calls fun r same => Value.noConfusion same]
  rfl

/-! ## Calls from code -/

/-- The code of a global, in a function that carries the variable with the globals along. -/
def globalCode (i : Nat) (name : String) (line : Nat) : Code :=
  .index (.carried i environmentName) (.const (.text name)) line

/-- A global is called with the value of an atom. -/
theorem step_callGlobal (host : Host) (line : Nat) {i g : Nat} {name : String} {q : Code} {f : Value}
    (environment : m.readCarried i = .table g) (found : m.heap.rawGet g (.text name) = f) (solid : f.isNil = false)
    (atom : q.isAtom = true) :
    (step host)^[4] { m with focus := .eval (.call (globalCode i name line) [q] line) } =
      { m with
        focus := .values [m.readAtom q]
        stack := .call f (.code (globalCode i name line)) line .one :: m.stack } := by
  -- The call is taken apart, the global is fetched, its arguments come next, and the atom needs no step.
  let waiting : Machine := { m with stack := .arguments (globalCode i name line) [q] line .one :: m.stack }
  let calling : Machine := { m with stack := .call f (.code (globalCode i name line)) line .one :: m.stack }
  have begun : step host { m with focus := .eval (.call (globalCode i name line) [q] line) } =
      { waiting with focus := .eval (globalCode i name line) } := rfl
  have fetched : step host { waiting with focus := .eval (globalCode i name line) } =
      { waiting with focus := .value f } := step_fetch host (m := waiting) environment found solid
  have next : step host { waiting with focus := .value f } = { calling with focus := .evalList [] [q] } := rfl
  have taken : step host { calling with focus := .evalList [] [q] } =
      { calling with focus := .values [m.readAtom q] } := by
    have listed : step host { calling with focus := .evalList [] [q] } =
      evalList { calling with focus := .done } [] [q] := rfl
    rw [listed]
    simp only [evalList, takeAtoms, atom, if_true]
    cases q with
    | _ => rfl
  rw [Function.iterate_succ_apply, begun, Function.iterate_succ_apply, fetched, Function.iterate_succ_apply, next,
    Function.iterate_succ_apply, taken]
  rfl

end Machine

/-! ## Descriptions as tables -/

namespace Library

/-- The fields of the table of a description. -/
def descriptorFields (d : Descriptor) : List (String × Value) :=
  (descriptorEntries d).map fun e => (e.1, .text e.2)

/-- The table of a description. -/
def describing (d : Descriptor) : Table :=
  (descriptorFields d).foldl (fun t e => t.setText e.1 e.2) Table.empty

theorem isRecord_describing (d : Descriptor) : (describing d).IsRecord (descriptorFields d) := by
  refine (Table.isRecord_nil 0 0).foldl_setText ?_ ?_
  · obtain ⟨path, name, basename, extension, content?⟩ := d
    cases content? with
    | _ => simp [descriptorFields, descriptorEntries]
  · intro e there
    obtain ⟨e, -, rfl⟩ := List.mem_map.1 there
    rfl

theorem run_descriptorTable (d : Descriptor) (h : Heap) :
    (descriptorTable d).run h = .done (.table h.tables.size) (h.newTable (describing d)).1 := by
  rw [describing, descriptorFields, List.foldl_map]
  rfl

end Library

/-- Whether a table describes a document: it has the fields of the description, and nothing else. -/
structure Heap.Describes (h : Heap) (r : Nat) (d : Descriptor) : Prop where
  bare : (h.table r).metatable? = none
  fields : ∀ key, h.rawGet r key = Table.field (Library.descriptorFields d) key

/-- Whether a table enumerates documents: its items are the tables that describe them, in their order. -/
structure Heap.Enumerates (h : Heap) (r : Nat) (ds : List Descriptor) : Prop where
  items : ∃ refs, (h.table r).IsSequence (refs.map .table) ∧ List.Forall₂ h.Describes refs ds
  length : (h.table r).border.1 = ds.length

namespace Heap

theorem table_newTable (h : Heap) (t : Table) : (h.newTable t).1.table h.tables.size = t := by
  show (h.tables.push t).getD h.tables.size default = t
  rw [Array.getD_eq_getD_getElem?, Array.getElem?_push_size]
  rfl

theorem size_newTable (h : Heap) (t : Table) : (h.newTable t).1.tables.size = h.tables.size + 1 := Array.size_push _

/-- The place of a new table is in the heap. -/
theorem lt_size_newTable (h : Heap) (t : Table) : h.tables.size < (h.newTable t).1.tables.size := by
  rw [size_newTable]
  exact Nat.lt_succ_self _

/-- A new table leaves the others as they are. -/
theorem table_newTable_of_lt (h : Heap) (t : Table) {r : Nat} (before : r < h.tables.size) :
    (h.newTable t).1.table r = h.table r := by
  show (h.tables.push t).getD r default = h.tables.getD r default
  rw [Array.getD_eq_getD_getElem?, Array.getElem?_push_lt before, Array.getD_eq_getD_getElem?,
    Array.getElem?_eq_getElem before]

theorem describes_newTable (h : Heap) (d : Descriptor) :
    (h.newTable (Library.describing d)).1.Describes h.tables.size d := by
  have record := Library.isRecord_describing d
  constructor
  · rw [table_newTable]
    exact record.bare
  · intro key
    rw [rawGet, table_newTable]
    exact record.get key

/-- A description stays what it is when tables are added. -/
theorem Describes.newTable {h : Heap} {r : Nat} {d : Descriptor} (describes : h.Describes r d)
    (before : r < h.tables.size) (t : Table) : (h.newTable t).1.Describes r d := by
  constructor
  · rw [table_newTable_of_lt h t before]
    exact describes.bare
  · intro key
    rw [rawGet, table_newTable_of_lt h t before]
    exact describes.fields key

end Heap

/-- Scripts find the documents of an enumeration under the integers from one on. -/
theorem Heap.Enumerates.get {h : Heap} {r i : Nat} {ds : List Descriptor} (enumerates : h.Enumerates r ds)
    (inside : i < ds.length) (small : i < 0x7FFFFFFFFFFFFFFF) :
    ∃ r', h.rawGet r (.int (Int64.ofNat (i + 1))) = .table r' ∧ h.Describes r' ds[i] := by
  obtain ⟨refs, sequence, describe⟩ := enumerates.items
  have listed : i < refs.length := by
    rw [describe.length_eq]
    exact inside
  refine ⟨refs[i], ?_, describe.get listed inside⟩
  rw [Heap.rawGet, sequence.get (by rw [List.length_map]; exact listed) small, List.getElem_map]

namespace Library

/-- The tables of descriptions are made one after the other, and each stays what it is. -/
theorem run_mapM_descriptorTable (ds : List Descriptor) (h : Heap) :
    ∃ refs h', (ds.mapM descriptorTable).run h = .done (refs.map .table) h' ∧
      List.Forall₂ (fun r d => r < h'.tables.size ∧ h'.Describes r d) refs ds := by
  -- The loop collects the tables in reverse; those that were made before it stay what they are.
  have loop : ∀ (done : List Value) (h : Heap), ∃ refs h',
      (List.mapM.loop descriptorTable ds done).run h = .done (done.reverse ++ refs.map .table) h' ∧
        List.Forall₂ (fun r d => r < h'.tables.size ∧ h'.Describes r d) refs ds ∧
        ∀ r d, r < h.tables.size → h.Describes r d → r < h'.tables.size ∧ h'.Describes r d := by
    induction ds with
    | nil =>
      intro done h
      refine ⟨[], h, ?_, .nil, fun r d before describes => ⟨before, describes⟩⟩
      rw [List.map_nil, List.append_nil]
      rfl
    | cons d ds ih =>
      intro done h
      have here : h.tables.size < (h.newTable (describing d)).1.tables.size := by
        show h.tables.size < (h.tables.push _).size
        rw [Array.size_push]
        exact Nat.lt_succ_self _
      obtain ⟨refs, h', made, describe, kept⟩ :=
        ih (.table h.tables.size :: done) (h.newTable (describing d)).1
      refine ⟨h.tables.size :: refs, h', ?_, .cons (kept _ _ here (h.describes_newTable d)) describe, ?_⟩
      · have first : List.mapM.loop descriptorTable (d :: ds) done =
            descriptorTable d >>= fun v => List.mapM.loop descriptorTable ds (v :: done) := rfl
        rw [first, Action.run_bind_of_done (run_descriptorTable d h), made, List.reverse_cons, List.append_assoc]
        rfl
      · intro r d' before describes
        exact kept r d' (Nat.lt_trans before here) (describes.newTable before _)
  obtain ⟨refs, h', made, describe, -⟩ := loop [] h
  exact ⟨refs, h', made, describe⟩

theorem run_descriptorTables (ds : List Descriptor) (h : Heap) :
    ∃ r h', (descriptorTables ds).run h = .done (.table r) h' ∧ h'.Enumerates r ds := by
  obtain ⟨refs, h', made, describe⟩ := run_mapM_descriptorTable ds h
  have sequence := Table.isSequence_setItems (refs.map Value.table)
  refine ⟨h'.tables.size,
    (h'.newTable ((Table.withRoom (refs.map Value.table).length 0).setItems 0 (refs.map Value.table))).1, ?_, ?_⟩
  · rw [descriptorTables, Action.run_bind_of_done made]
    rfl
  · constructor
    · refine ⟨refs, ?_, describe.imp fun r d described => described.2.newTable described.1 _⟩
      rw [Heap.table_newTable]
      exact sequence
    · rw [Heap.table_newTable, sequence.border, List.length_map, describe.length_eq]
      intro v there
      obtain ⟨r, -, rfl⟩ := List.mem_map.1 there
      rfl

end Library

end VaultConsole.Lua
