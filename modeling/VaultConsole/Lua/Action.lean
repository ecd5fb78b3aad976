import VaultConsole.Lua.Growth
import VaultConsole.Vault.Memory

/-!
# Actions

What a library function or a metamethod lookup does: it works on the heap, may call a value and go on with
the results, may ask the host or the platform, and ends with a result or a fault. Who carries an action out
decides how the call is made; the action is data until then. An action carries the proof that heaps only grow
in its course.
-/

namespace VaultConsole.Lua

/-- Why an action fails. A fault says what is wrong; where it is said to have happened depends on who
carries the action out. -/
inductive Fault where
  /-- An error value, raised as it is. -/
  | value (v : Value)
  /-- An operation on a wrong value. -/
  | runtime (message : ByteArray)
  /-- A message about the caller of a library function. -/
  | located (message : ByteArray)
  /-- A bad argument of a library function, counted from one. -/
  | argument (position : Nat) (message : ByteArray)
  /-- An operand of a type that the operation does not take; operands are counted from zero. -/
  | operand (position : Nat) (operation : String) (type : ByteArray)
  /-- An operand without an integer value. -/
  | noInteger (position : Nat)
  /-- No memory is left. -/
  | memory
  /-- The nesting of calls exceeds the limit. -/
  | nesting
  deriving DecidableEq, Inhabited

/-- What is said where no memory is left. -/
def memoryMessage : String := "not enough memory"

/-- The error that stands for lack of memory. -/
def memoryError : Value := .text memoryMessage

/-- What a script asks the host for. -/
inductive Query where
  | name
  | activeFile
  | allFiles
  /-- A document with its content; only this one may have to wait. -/
  | document (query : String)
  deriving DecidableEq, Repr, Inhabited

/-- What the host answers. -/
inductive Reply where
  | text (s : String)
  | file (d? : Option Descriptor)
  | files (ds : List Descriptor)
  | document (d : Descriptor)
  | failed (e : BridgeError)
  deriving Inhabited

/-- The course of an action. -/
inductive Act (α : Type) where
  | done (a : α) (h : Heap)
  | fail (f : Fault) (h : Heap)
  | call (f : Value) (args : List Value) (h : Heap) (next : List Value → Heap → Act α)
  | ask (q : Query) (h : Heap) (next : Reply → Heap → Act α)
  | platform (c : PlatformCall) (h : Heap) (next : c.Answer → Heap → Act α)

namespace Act

/-- Whether heaps only grow in the course of an action, from one that it begins with. -/
inductive Grows : Heap → Act α → Prop where
  | done {h h' : Heap} {a : α} (grows : h.Grows h') : Grows h (.done a h')
  | fail {h h' : Heap} {f : Fault} (grows : h.Grows h') : Grows h (.fail f h')
  | call {h h' : Heap} {f : Value} {args : List Value} {next : List Value → Heap → Act α}
      (grows : h.Grows h') (later : ∀ vs h, Grows h (next vs h)) : Grows h (.call f args h' next)
  | ask {h h' : Heap} {q : Query} {next : Reply → Heap → Act α} (grows : h.Grows h')
      (later : ∀ r h, Grows h (next r h)) : Grows h (.ask q h' next)
  | platform {h h' : Heap} {c : PlatformCall} {next : c.Answer → Heap → Act α} (grows : h.Grows h')
      (later : ∀ a h, Grows h (next a h)) : Grows h (.platform c h' next)

/-- A course that begins with a later heap can be counted from the earlier one. -/
theorem Grows.mono {h h' : Heap} {x : Act α} (g : h.Grows h') (later : x.Grows h') : x.Grows h := by
  cases later with
  | done grows => exact .done (g.trans grows)
  | fail grows => exact .fail (g.trans grows)
  | call grows later => exact .call (g.trans grows) later
  | ask grows later => exact .ask (g.trans grows) later
  | platform grows later => exact .platform (g.trans grows) later

/-- The heap up to which a course runs by itself. -/
def heap : Act α → Heap
  | done _ h | fail _ h | call _ _ h _ | ask _ h _ | platform _ h _ => h

theorem Grows.begins {h : Heap} {x : Act α} (grows : x.Grows h) : h.Grows x.heap := by
  cases grows with
  | done grows | fail grows | call grows _ | ask grows _ | platform grows _ => exact grows

/-- What comes after a call grows as well. -/
theorem Grows.after_call {h h' : Heap} {f : Value} {args : List Value} {next : List Value → Heap → Act α}
    (grows : Grows h (.call f args h' next)) (vs : List Value) (h'' : Heap) : Grows h'' (next vs h'') := by
  cases grows with
  | call _ later => exact later vs h''

theorem Grows.after_ask {h h' : Heap} {q : Query} {next : Reply → Heap → Act α}
    (grows : Grows h (.ask q h' next)) (r : Reply) (h'' : Heap) : Grows h'' (next r h'') := by
  cases grows with
  | ask _ later => exact later r h''

theorem Grows.after_platform {h h' : Heap} {c : PlatformCall} {next : c.Answer → Heap → Act α}
    (grows : Grows h (.platform c h' next)) (a : c.Answer) (h'' : Heap) : Grows h'' (next a h'') := by
  cases grows with
  | platform _ later => exact later a h''

/-- Goes on after the end of an action. -/
def bind (x : Act α) (f : α → Heap → Act β) : Act β :=
  match x with
  | done a h => f a h
  | fail e h => fail e h
  | call g args h next => call g args h fun vs h => (next vs h).bind f
  | ask q h next => ask q h fun r h => (next r h).bind f
  | platform c h next => platform c h fun a h => (next a h).bind f

theorem Grows.bind {h : Heap} {x : Act α} {f : α → Heap → Act β} (begins : x.Grows h)
    (goes : ∀ a h, (f a h).Grows h) : (x.bind f).Grows h := by
  induction begins with
  | done grows => exact (goes _ _).mono grows
  | fail grows => exact .fail grows
  | call grows _ ih => exact .call grows ih
  | ask grows _ ih => exact .ask grows ih
  | platform grows _ ih => exact .platform grows ih

end Act

/-- An action: what happens on a heap, which only grows. -/
structure Action (α : Type) where
  run : Heap → Act α
  grows : ∀ h, (run h).Grows h

namespace Action

instance : Monad Action where
  pure a := ⟨fun h => .done a h, fun h => .done (.refl h)⟩
  bind x f := ⟨fun h => (x.run h).bind fun a h => (f a).run h,
    fun h => (x.grows h).bind fun a h => (f a).grows h⟩

instance : Inhabited (Action α) := ⟨⟨fun h => .fail .memory h, fun h => .fail (.refl h)⟩⟩

/-- Fails. -/
def fail (f : Fault) : Action α := ⟨fun h => .fail f h, fun h => .fail (.refl h)⟩

/-- Fails with a message about the caller. -/
def failLocated (message : String) : Action α := fail (.located message.toUTF8)

/-- Fails because of an argument. -/
def failArgument (position : Nat) (message : String) : Action α :=
  fail (.argument position message.toUTF8)

/-- Fails with a fault that depends on the heap. -/
def failBy (f : Heap → Fault) : Action α where
  run h :=
    let fault := f h
    .fail fault h
  grows h := .fail (.refl h)

/-- A property of the heap. -/
def inspect (f : Heap → α) : Action α where
  run h :=
    let a := f h
    .done a h
  grows h := .done (.refl h)

/-- Changes the heap. -/
def change (f : Heap → Heap) (grows : ∀ h : Heap, h.Grows (f h)) : Action Unit :=
  ⟨fun h => .done () (f h), fun h => .done (grows h)⟩

/-- Changes the heap and gives a result. -/
def update (f : Heap → Heap × α) (grows : ∀ h : Heap, h.Grows (f h).1) : Action α where
  run h :=
    let (h, a) := f h
    .done a h
  grows h := .done (grows h)

/-- Calls a value. -/
def call (f : Value) (args : List Value) : Action (List Value) :=
  ⟨fun h => .call f args h .done, fun h => .call (.refl h) fun _ h => .done (.refl h)⟩

/-- Calls a value for its first result. -/
def call1 (f : Value) (args : List Value) : Action Value := do
  return (← call f args).headD .nil

/-- Asks the host. -/
def ask (q : Query) : Action Reply :=
  ⟨fun h => .ask q h .done, fun h => .ask (.refl h) fun _ h => .done (.refl h)⟩

/-- Asks the platform. -/
def platform (c : PlatformCall) : Action c.Answer :=
  ⟨fun h => .platform c h .done, fun h => .platform (.refl h) fun _ h => .done (.refl h)⟩

/-- Fails if a string of a size does not fit into memory. -/
def checkSize (size : Nat) : Action Unit where
  run h := if h.exceeds size then .fail .memory h else .done () h
  grows h := by
    split
    · exact .fail (.refl h)
    · exact .done (.refl h)

/-- A new table. -/
def newTable (t : Table) (lawful : t.Lawful) : Action Value :=
  update (fun h =>
    let (h, r) := h.newTable t
    (h, .table r)) fun h => h.grows_newTable lawful

/-- Fails with an error of the host. -/
def failHost (e : ScriptError) : Action α where
  run h :=
    let (h, r) := h.newFailure e
    .fail (.value (.failure r)) h
  grows h := .fail (h.grows_newFailure e)

end Action

end VaultConsole.Lua
