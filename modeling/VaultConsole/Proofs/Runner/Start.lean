import VaultConsole.Proofs.Globals
import VaultConsole.Proofs.Runner.Sessions

/-!
# How the helper is made

A session runs the source of the helper once, when it starts. That fetches the functions of the library from
the globals, which no script has touched yet, and makes the functions of the helper, which hold them. So a
session has its helper from the start, and keeps it.
-/

namespace VaultConsole.Lua

namespace Machine

/-- A function is made with what it carries along, unless memory is limited and short. -/
theorem makeClosure_cases (m : Machine) (p : Proto) :
    let made := m.heap.newClosure ⟨p, p.captures.foldl (fun carried c => carried.push (capture m.act c.1))
      (Array.emptyWithCapacity 4)⟩
    (m.heap.limit? ≠ none ∧ m.makeClosure p = { m with focus := .raise memoryError, heap := made.1 }) ∨
      m.makeClosure p = { m with focus := .value (.closure made.2), heap := made.1 } := by
  obtain ⟨focus, act, stack, heap, depth, room, thread, threads, resumers⟩ := m
  intro made
  have split : makeClosure ⟨focus, act, stack, heap, depth, room, thread, threads, resumers⟩ p =
      if made.1.isExhausted then
        ⟨.raise memoryError, act, stack, made.1, depth, room, thread, threads, resumers⟩
      else ⟨.value (.closure made.2), act, stack, made.1, depth, room, thread, threads, resumers⟩ := rfl
  rw [split]
  cases short : made.1.isExhausted with
  | true => exact .inl ⟨made.1.limited_of_isExhausted short, rfl⟩
  | false => exact .inr rfl

/-- A machine that comes to make a function where errors are not caught has it next, or fails for lack of
memory. -/
theorem made_or_short {host : Host} {m x : Machine} {p : Proto} {n : Nat}
    (reaches : (step host)^[n] m = x.makeClosure p) (uncaught : handler? x.stack = none)
    (alone : x.resumers = []) :
    let made := x.heap.newClosure ⟨p, p.captures.foldl (fun carried c => carried.push (capture x.act c.1))
      (Array.emptyWithCapacity 4)⟩
    (x.heap.limit? ≠ none ∧ ((step host)^[2 + n] m).focus = .failed memoryError) ∨
      (step host)^[n] m = { x with focus := .value (.closure made.2), heap := made.1 } := by
  intro made
  obtain ⟨limited, short⟩ | goes := makeClosure_cases x p
  · refine .inl ⟨limited, ?_⟩
    obtain ⟨focus, act, stack, heap, depth, room, thread, threads, resumers⟩ := x
    obtain rfl : resumers = [] := alone
    have uncaught : handler? stack = none := uncaught
    rw [Function.iterate_add_apply, reaches, short]
    simp only [Function.iterate_succ_apply, Function.iterate_zero_apply, step, handle, unwind, uncaught]
  · exact .inr (reaches.trans goes)

/-- A global is fetched from the table of globals. -/
theorem step_global (host : Host) {heap : Heap} {act : Activation} {c g : Nat} {name : String} {v : Value}
    {label : ByteArray} {line : Nat} {stack : List Frame} {depth room thread : Nat}
    {threads : Array ThreadState} (carried : act.carried = #[.cell c]) (globals : heap.cell c = .table g)
    (found : (heap.table g).get (.text name) = v) (solid : v.isNil = false) :
    step host ⟨.eval (.index (.carried 0 label) (.const (.text name)) line), act, stack, heap, depth, room,
      thread, threads, []⟩ = ⟨.value v, act, stack, heap, depth, room, thread, threads, []⟩ := by
  let m : Machine := ⟨.done, act, stack, heap, depth, room, thread, threads, []⟩
  have object : m.readCarried 0 = .table g := by
    rw [← globals, readCarried, carried]
    rfl
  exact step_fetch host (m := m) object found solid

end Machine

namespace Runner

open Machine

variable {host : Host} {heap : Heap} {r c g depth room thread : Nat} {threads : Array ThreadState}
  {act : Activation} {stack : List Frame}

/-- The functions of the library that the helper holds, under their names. -/
def held : List (String × Value) :=
  [("xpcall", .builtin (.base .xpcall)), ("type", .builtin (.base .type)),
    ("tostring", .builtin (.base .tostring)), ("error", .builtin (.base .error))]

/-- The heap with the functions of the helper, and the helper. -/
def equipped (heap : Heap) : Heap × Nat :=
  let h := heap.newClosure handlerClosure
  let f := h.1.newClosure finishClosure
  f.1.newClosure (callerClosure f.2 h.2)

theorem isHelper_equipped (heap : Heap) :
    IsHelper (equipped heap).1 (equipped heap).2 (heap.closures.size + 1) heap.closures.size := by
  have closures : (equipped heap).1.closures = ((heap.closures.push handlerClosure).push finishClosure).push
      (callerClosure (heap.closures.push handlerClosure).size heap.closures.size) := rfl
  have size : (equipped heap).2 = ((heap.closures.push handlerClosure).push finishClosure).size := rfl
  constructor
  all_goals
    rw [closures]
    grind

/-- The code that fetches a global for the helper. -/
def fetching (name : String) : Code := .index (.carried 0 "_ENV".toUTF8) (.const (.text name)) 2

theorem step_fetching (host : Host) {name : String} {v : Value} {done : List Value} {codes : List Code}
    (carried : act.carried = #[.cell c]) (globals : heap.cell c = .table g)
    (found : (heap.table g).get (.text name) = v) (solid : v.isNil = false) :
    (step host)^[3] ⟨.evalList done (fetching name :: codes), act, stack, heap, depth, room, thread, threads,
      []⟩ = ⟨.evalList (v :: done) codes, act, stack, heap, depth, room, thread, threads, []⟩ := by
  have begun : step host ⟨.evalList done (fetching name :: codes), act, stack, heap, depth, room, thread,
      threads, []⟩ = ⟨.eval (fetching name), act, .more done codes :: stack, heap, depth, room, thread,
      threads, []⟩ := by
    cases codes with
    | nil => rfl
    | cons code codes => rfl
  rw [Function.iterate_succ_apply, begun, Function.iterate_succ_apply, fetching,
    step_global host carried globals found solid]
  rfl

/-- Globals are fetched one after the other. -/
theorem step_fetchingAll (host : Host) (held : List (String × Value)) {done : List Value}
    (carried : act.carried = #[.cell c]) (globals : heap.cell c = .table g)
    (found : ∀ e ∈ held, (heap.table g).get (.text e.1) = e.2 ∧ e.2.isNil = false) :
    (step host)^[3 * held.length] ⟨.evalList done (held.map fun e => fetching e.1), act, stack, heap, depth,
      room, thread, threads, []⟩ =
        ⟨.evalList ((held.map Prod.snd).reverse ++ done) [], act, stack, heap, depth, room, thread, threads,
          []⟩ := by
  induction held generalizing done with
  | nil => rfl
  | cons e held ih =>
    obtain ⟨here, solid⟩ := found e List.mem_cons_self
    rw [List.length_cons, Nat.mul_succ, Function.iterate_add_apply, List.map_cons,
      step_fetching host carried globals here solid, ih fun e there => found e (List.mem_cons_of_mem _ there),
      List.map_cons, List.reverse_cons, List.append_assoc]
    rfl

/-- The function that sets up the helper as it runs. -/
def settingUp (c : Nat) (slots : List Value) : Activation := ⟨chunk, #[.cell c], slots.toArray, #[], []⟩

/-- What is left to do of it after some of its statements. -/
def toCome (done : Nat) : List Frame := [.block [] (setup.body.drop done)]

/-- The function that sets up the helper gives the helper, unless memory is short. -/
theorem step_setup (host : Host) {m : Machine}
    (begins : m = ⟨.enter (.closure r) [], act, [], heap, 0, 0, thread, threads, []⟩)
    (closure : heap.closures[r]? = some ⟨setup, #[.cell c]⟩) (globals : heap.cell c = .table g)
    (found : ∀ e ∈ held, (heap.table g).get (.text e.1) = e.2 ∧ e.2.isNil = false) :
    (heap.limit? ≠ none ∧ ∃ n, n ≤ 40 ∧ ((step host)^[n] m).focus = .failed memoryError) ∨
      ∃ n act, n ≤ 40 ∧ (step host)^[n] m = ⟨.finished [.closure (equipped heap).2], act, [],
        (equipped heap).1, 0, 10, thread, threads, []⟩ := by
  have first : step host m = enterClosure ⟨.done, act, [], heap, 0, 0, thread, threads, []⟩ r [] := by
    rw [begins]
    rfl
  have fits : 0 + 6 + 0 + 4 ≤ maxRoom := by decide
  obtain ⟨exceeds, short⟩ | goes := enterClosure_cases ⟨.done, act, [], heap, 0, 0, thread, threads, []⟩
    closure [] fits
  · refine .inl ⟨heap.limited_of_exceeds exceeds, 3, by decide, ?_⟩
    rw [Function.iterate_succ_apply, first, short]
    rfl
  -- The functions that the helper needs are fetched, and then its three functions are made in turn.
  have fetches : (step host)^[2] m = ⟨.evalList [] (held.map fun e => fetching e.1), settingUp c
      (List.replicate 6 .nil), .declare [.slot 0, .slot 1, .slot 2, .slot 3] :: toCome 1, heap, 0, 10, thread,
      threads, []⟩ := by
    rw [Function.iterate_succ_apply, first, goes]
    rfl
  have makes : (step host)^[17] m = makeClosure ⟨.done, settingUp c (held.map Prod.snd ++ [.nil, .nil]),
      .assignOne (.local (.slot 4)) 0 :: toCome 2, heap, 0, 10, thread, threads, []⟩ handler := by
    have steps : 17 = 3 + (3 * held.length + 2) := rfl
    rw [steps, Function.iterate_add_apply, Function.iterate_add_apply, fetches,
      step_fetchingAll host held rfl globals found]
    rfl
  obtain ⟨limited, short⟩ | made := made_or_short makes rfl rfl
  · exact .inl ⟨limited, 19, by decide, short⟩
  have makes : (step host)^[19] m = makeClosure ⟨.done,
      settingUp c (held.map Prod.snd ++ [.closure heap.closures.size, .nil]),
      .assignOne (.local (.slot 5)) 0 :: toCome 3, (heap.newClosure handlerClosure).1, 0, 10, thread, threads,
      []⟩ finish := by
    rw [Function.iterate_add_apply _ 2 17, made]
    rfl
  obtain ⟨limited, short⟩ | made := made_or_short makes rfl rfl
  · exact .inl ⟨limited, 21, by decide, short⟩
  have makes : (step host)^[23] m = makeClosure ⟨.done, settingUp c (held.map Prod.snd ++
      [.closure heap.closures.size, .closure (heap.newClosure handlerClosure).1.closures.size]),
      [.more [] [], .return], ((heap.newClosure handlerClosure).1.newClosure finishClosure).1, 0, 10, thread,
      threads, []⟩ caller := by
    rw [Function.iterate_add_apply _ 4 19, made]
    rfl
  obtain ⟨limited, short⟩ | made := made_or_short makes rfl rfl
  · exact .inl ⟨limited, 25, by decide, short⟩
  have ends : ∃ act, (step host)^[29] m = ⟨.finished [.closure (equipped heap).2], act, [],
      (equipped heap).1, 0, 10, thread, threads, []⟩ := by
    rw [Function.iterate_add_apply _ 6 23, made]
    exact ⟨_, rfl⟩
  obtain ⟨act, ends⟩ := ends
  exact .inr ⟨29, act, by decide, ends⟩

end Runner

namespace Session

open Runner

/-- A call is a run of its machine. -/
theorem call_eq (host : Host) (s : Session) (f : Value) (args : List Value) :
    let m := (machine ⟨s.heap, s.threads, .nil⟩ f args).run host patience
    s.call host f args = (⟨m.heap, m.threads.setIfInBounds m.thread .dead, s.runner⟩, ending m) := rfl

/-- The heap of a new session with the function that sets up its helper. -/
def startChunk (limit? : Option Nat) : Heap :=
  ((Library.startHeap limit?).newChunk setup (.table (Library.startHeap limit?).globals)).1

/-- A session that starts is this one. -/
def fresh (limit? : Option Nat) : Session :=
  let helper := equipped (startChunk limit?)
  ⟨helper.1, #[.dead], .closure helper.2⟩

/-- What makes the helper leaves the tables alone. -/
theorem table_startChunk (limit? : Option Nat) (r : Nat) :
    (startChunk limit?).table r = (Library.startHeap limit?).table r := by
  unfold startChunk
  generalize Library.startHeap limit? = heap
  rfl

theorem table_fresh (limit? : Option Nat) (r : Nat) :
    (fresh limit?).heap.table r = (Library.startHeap limit?).table r := by
  rw [← table_startChunk, fresh]
  generalize startChunk limit? = heap
  rfl

/-- A new session finds its globals under their names. -/
theorem rawGet_fresh (limit? : Option Nat) {globals : List (String × Value)}
    (record : ((Library.startHeap limit?).table 0).IsRecord globals) {name : String} {value : Value}
    (listed : (name, value) ∈ globals) :
    (fresh limit?).heap.rawGet (fresh limit?).heap.globals (.text name) = value := by
  have first : (fresh limit?).heap.globals = 0 := rfl
  rw [first, Heap.rawGet, table_fresh]
  exact record.get_text listed

theorem get_held (limit? : Option Nat) : ∀ e ∈ held,
    ((startChunk limit?).table 0).get (.text e.1) = e.2 ∧ e.2.isNil = false := by
  intro e there
  obtain ⟨globals, _, _, holds, ⟨base, -⟩, -⟩ := Library.exists_globals limit?
  have named : e ∈ Library.named .base Library.baseFunctions := by
    simp only [held, List.mem_cons, List.not_mem_nil, or_false] at there
    obtain rfl | rfl | rfl | rfl := there <;> simp [Library.named, Library.baseFunctions]
  rw [table_startChunk]
  exact ⟨holds.get_text (base named), Library.solid_named _ _ e named⟩

/-- The call that sets up the helper gives it, or fails. -/
theorem call_setup (limit? : Option Nat) :
    (limit? ≠ none ∧ (call noHost ⟨startChunk limit?, #[], .nil⟩ (.closure 0) []).2 = .raised memoryError) ∨
      call noHost ⟨startChunk limit?, #[], .nil⟩ (.closure 0) [] =
        (⟨(equipped (startChunk limit?)).1, #[.dead], .nil⟩, .returned [(fresh limit?).runner]) := by
  rw [call_eq]
  obtain ⟨limited, n, upTo, failed⟩ | ⟨n, act, upTo, ends⟩ := step_setup (r := 0) (c := 0) (g := 0) noHost
    (m := machine ⟨startChunk limit?, #[], .nil⟩ (.closure 0) []) rfl rfl rfl (get_held limit?)
  · refine .inl ⟨limited, ?_⟩
    have long : n ≤ patience := Nat.le_trans upTo (by decide)
    rw [Machine.run_eq_of_ended long (by rw [Machine.hasEnded, failed])]
    exact ending_of_failed failed
  · right
    have long : n ≤ patience := Nat.le_trans upTo (by decide)
    rw [Machine.run_eq_of_ended long (by rw [ends]; rfl), ends]
    rfl

/-- What becomes of a start. -/
theorem start_cases (limit? : Option Nat) :
    (limit? ≠ none ∧ ∃ cause, start limit? = .error cause) ∨ start limit? = .ok (fresh limit?) := by
  unfold start
  simp only [compile_source]
  split
  · rename_i short
    exact .inl ⟨Heap.limited_of_isExhausted _ short, _, rfl⟩
  · have chunk : (Library.startHeap limit?).newChunk setup (.table (Library.startHeap limit?).globals) =
        (startChunk limit?, 0) := rfl
    rw [chunk]
    simp only []
    generalize called : call noHost ⟨startChunk limit?, #[], .nil⟩ (.closure 0) [] = result
    obtain ⟨limited, failed⟩ | gives := call_setup limit?
    · rw [called] at failed
      obtain ⟨s', ending⟩ := result
      obtain rfl : ending = .raised memoryError := failed
      exact .inl ⟨limited, _, rfl⟩
    · rw [called] at gives
      rw [gives]
      exact .inr rfl

/-- A session that starts has just its globals and its helper. -/
theorem eq_fresh_of_start {limit? : Option Nat} {s : Session} (started : start limit? = .ok s) :
    s = fresh limit? := by
  obtain ⟨-, cause, failed⟩ | made := start_cases limit?
  · cases started.symm.trans failed
  · exact Except.ok.inj (started.symm.trans made)

theorem hasHelper_fresh (limit? : Option Nat) : HasHelper (fresh limit?) :=
  ⟨_, _, _, rfl, isHelper_equipped (startChunk limit?)⟩

end Session

end VaultConsole.Lua
