import VaultConsole.Proofs.Vault.Scripts

/-!
# Calls that suspend a machine

The outermost coroutine of a machine can be suspended for a while: where it yields, and where it asks the vault
for a document that has to be waited for. `Suspends` says at which machines that happens, and what is handed out
there. `Suspension.resumed` says how the machine goes on once it is resumed: a bare yield gives no values, and a
question gives what the vault has answered (`Outside.Settles`). A machine that is not stopped there takes the same
step (`step_of_suspends`).
-/

namespace VaultConsole

open Lua Machine

namespace Lua

/-! ## Calls of library functions -/

/-- A value that is called with arguments leads to a library function with its own arguments: what is no
function is called through its metatable, and comes itself before the arguments. -/
inductive Leads (h : Heap) : Nat → Value → List Value → Builtin → List Value → Prop where
  | function (n : Nat) (b : Builtin) (args : List Value) : Leads h (n + 1) (.builtin b) args b args
  | through {n : Nat} {f : Value} {args args' : List Value} {b : Builtin} (object : f.type ≠ .function)
      (solid : (h.metafield f Event.callKey).isNil = false)
      (leads : Leads h n (h.metafield f Event.callKey) (f :: args) b args') : Leads h (n + 1) f args b args'

namespace Machine

variable {host : Host} {m m' : Machine} {b : Builtin} {args args' : List Value} {f : Value} {n : Nat}

/-- What is no function is entered through its metatable, where there is something to call. -/
theorem enter_object (object : f.type ≠ .function) (solid : (m.heap.metafield f Event.callKey).isNil = false) :
    enter host (n + 1) m f args = enter host n m (m.heap.metafield f Event.callKey) (f :: args) := by
  have other : ∀ g : Value, g.type = .function → f ≠ g := by
    rintro g called rfl
    exact object called
  rw [enter]
  · generalize m.heap.metafield f Event.callKey = g at solid
    cases g with
    | nil => cases solid
    | _ => rfl
  · exact fun r => other _ rfl
  · exact fun b => other _ rfl
  · exact fun t => other _ rfl
  · exact fun r => other _ rfl

theorem enter_of_leads (leads : Leads m.heap n f args b args') :
    enter host n m f args = m.enterBuiltin host b args' := by
  induction leads with
  | function => rfl
  | through object solid leads ih => rw [enter_object object solid, ih]

/-- A machine calls a library function; last comes the machine as it waits for the results. -/
def Invokes (m : Machine) (b : Builtin) (args : List Value) (m' : Machine) : Prop :=
  ∃ f args', m.Calls f args' m' ∧ Leads m'.heap maxDepth f args' b args

theorem Calls.invokes (calls : m.Calls (.builtin b) args m') : m.Invokes b args m' :=
  ⟨_, _, calls, .function _ b args⟩

theorem step_of_invokes (host : Host) (invokes : m.Invokes b args m') :
    m.step host = m'.enterBuiltin host b args := by
  obtain ⟨f, args', calls, leads⟩ := invokes
  have other : ∀ r, f ≠ .closure r := by
    rintro r rfl
    cases leads with
    | through object => exact object rfl
  rw [step_eq_enter host calls other, enter_of_leads leads]

/-- A bare yield of the outermost coroutine gives no values, whatever is yielded. -/
theorem yield_outermost (free : isYieldable m.stack = true) (outermost : m.resumers = []) (vs : List Value) :
    m.yield vs = { m with focus := .give [] } := by
  obtain ⟨focus, act, stack, heap, depth, room, thread, threads, resumers⟩ := m
  obtain rfl : resumers = [] := outermost
  have open' : (!isYieldable stack) = false := by
    rw [free]
    rfl
  rw [yield, open']
  rfl

/-- A machine that calls something has not ended. -/
theorem Calls.hasEnded (calls : m.Calls f args m') : m.hasEnded = false := by
  cases calls with
  | _ => rfl

end Machine

/-! ## Suspensions -/

/-- The functions that read a document. -/
inductive Reader where
  /-- The description of the document, with its content. -/
  | note
  | content
  deriving DecidableEq, Repr

def Reader.function : Reader → HostFunction
  | .note => .note
  | .content => .noteContent

/-- What a machine is suspended for. -/
inductive Suspension where
  /-- A bare yield, with its arguments. -/
  | yielded (vs : List Value)
  /-- A function that reads the document that a query names. -/
  | reading (f : Reader) (query : String)

/-- A machine is suspended at its next step; last comes the machine as it waits to be resumed. That happens in
the outermost coroutine, where nothing is in between that has to return first. -/
inductive Machine.Suspends (o : Outside) (m : Machine) : Suspension → Machine → Prop where
  | yield {vs : List Value} {m' : Machine} (invokes : m.Invokes (.coroutine .yield) vs m')
      (outermost : m'.resumers = []) (free : isYieldable m'.stack = true) : Suspends o m (.yielded vs) m'
  | read {f : Reader} {args : Args} {query : String} {m' : Machine}
      (invokes : m.Invokes (.host f.function) args m') (asked : Library.textOf (args.get 1) = .ok query)
      (waits : o.host.hasToWait m'.heap.calls (.document query) = true) (outermost : m'.resumers = [])
      (free : isYieldable m'.stack = true) :
      Suspends o m (.reading f query) { m' with heap := m'.heap.note (o.vault m'.heap.calls).notices }

theorem Machine.Suspends.hasEnded {o : Outside} {m m' : Machine} {s : Suspension} (suspends : m.Suspends o s m') :
    m.hasEnded = false := by
  cases suspends with
  | yield invokes =>
    obtain ⟨f, args, calls, -⟩ := invokes
    exact calls.hasEnded
  | read invokes =>
    obtain ⟨f, args, calls, -⟩ := invokes
    exact calls.hasEnded

/-- A machine in which a function of the host fails with an error of the vault. -/
def Machine.failing (m : Machine) (e : BridgeError) : Machine :=
  { m with
    focus := .raise (.failure m.heap.failures.size)
    heap := (m.heap.newFailure (.callback Library.traceback (.host e))).1 }

/-- A machine in which a function gives the document that it has read. -/
def Reader.giving (m : Machine) (d : Descriptor) : Reader → Machine
  | .note =>
    { m with focus := .give [.table m.heap.tables.size], heap := (m.heap.newTable (Library.describing d)).1 }
  | .content => { m with focus := .give [.text (d.content?.getD "")] }

/-- A machine that was suspended, as it goes on. -/
def Suspension.resumed (o : Outside) (m : Machine) : Suspension → Machine
  | .yielded _ => { m with focus := .give [] }
  | .reading f query =>
    match (o.vault m.heap.calls).document query with
    | .ok d => f.giving m d
    | .error e => m.failing e

end Lua

namespace Outside

variable {o : Outside} {m m' : Machine} {s : Suspension} {f : Reader} {args : Args} {query : String}

/-- A function that reads a document, and may wait for it if it has to, goes on with what the vault answers. -/
theorem step_of_read (invokes : m.Invokes (.host f.function) args m')
    (asked : Library.textOf (args.get 1) = .ok query)
    (free : o.host.hasToWait m'.heap.calls (.document query) = true → isYieldable m'.stack = true) :
    m.step o.host = (Suspension.reading f query).resumed o
      { m' with heap := m'.heap.note (o.vault m'.heap.calls).notices } := by
  have carried : m'.enterBuiltin o.host (.host f.function) args =
      m'.runNative o.host (.builtin (.host f.function)) (Library.host f.function args) := rfl
  rw [step_of_invokes o.host invokes, carried, Suspension.resumed, Heap.calls_note]
  cases f with
  | note =>
    rw [Reader.function, runNative_document rfl asked free]
    cases answer : (o.vault m'.heap.calls).document query with
    | ok d =>
      rw [Vault.answer_document answer]
      exact runNative_of_done (Action.run_bind_of_done (Library.run_descriptorTable d _) _) _
    | error e =>
      rw [Vault.answer_missing answer]
      exact runNative_of_fail rfl _
  | content =>
    rw [Reader.function, runNative_document rfl asked free]
    cases answer : (o.vault m'.heap.calls).document query with
    | ok d =>
      rw [Vault.answer_document answer]
      exact runNative_of_done rfl _
    | error e =>
      rw [Vault.answer_missing answer]
      exact runNative_of_fail rfl _

/-- A machine that is not stopped where it is suspended goes on as one that was suspended and resumed. -/
theorem step_of_suspends (suspends : m.Suspends o s m') : m.step o.host = s.resumed o m' := by
  cases suspends with
  | @yield vs _ invokes outermost free =>
    rw [step_of_invokes o.host invokes]
    exact Machine.yield_outermost free outermost vs
  | read invokes asked waits outermost free => exact step_of_read invokes asked fun _ => free

/-! ## What is given -/

theorem grows_resumed (o : Outside) (m : Machine) (s : Suspension) : m.heap.Grows (s.resumed o m).heap := by
  cases s with
  | yielded vs => exact .refl _
  | reading f query =>
    rw [Suspension.resumed]
    cases (o.vault m.heap.calls).document query with
    | error e => exact m.heap.grows_newFailure _
    | ok d =>
      cases f with
      | note =>
        exact m.heap.grows_newTable (Table.lawful_foldl Table.lawful_empty fun _ _ _ lawful => lawful.setText _ _)
      | content => exact .refl _

/-- What suspensions are settled with. A bare yield gives no values, whatever is yielded. A note is a table with the
description of the document, and the content is a text; and if the vault has no such document or cannot read it,
both raise its error. -/
structure Settles (o : Outside) : Prop where
  yielded : ∀ vs m, (Suspension.yielded vs).resumed o m = { m with focus := .give [] }
  note : ∀ query m d, (o.vault m.heap.calls).document query = .ok d → ∃ r h, h.Describes r d ∧
    (Suspension.reading .note query).resumed o m = { m with focus := .give [.table r], heap := h }
  content : ∀ query m text, (o.vault m.heap.calls).content query = .ok text →
    (Suspension.reading .content query).resumed o m = { m with focus := .give [.text text] }
  failed : ∀ f query m e, (o.vault m.heap.calls).document query = .error e → ∃ r h,
    h.failures[r]? = some (.callback Library.traceback (.host e)) ∧
    (Suspension.reading f query).resumed o m = { m with focus := .raise (.failure r), heap := h }

theorem settles (o : Outside) : o.Settles where
  yielded _ _ := rfl
  note := by
    intro query m d found
    refine ⟨_, _, m.heap.describes_newTable d, ?_⟩
    simp only [Suspension.resumed, found]
    rfl
  content := by
    intro query m text answered
    obtain ⟨d, found, held⟩ := Vault.content_eq_ok.1 answered
    simp only [Suspension.resumed, found, Reader.giving, held, Option.getD_some]
  failed := by
    intro f query m e missing
    refine ⟨m.heap.failures.size, (m.heap.newFailure (.callback Library.traceback (.host e))).1,
      Array.getElem?_push_size, ?_⟩
    simp only [Suspension.resumed, missing]
    rfl

end Outside

end VaultConsole
