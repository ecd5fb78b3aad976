import VaultConsole.Proofs.Machine.Uncaught
import VaultConsole.Proofs.Results
import VaultConsole.Proofs.Runner.Handler

/-!
# What the helper does

The helper calls a chunk with its handler, gives back the values of the chunk, and raises again what goes on
in place of an error. -/

namespace VaultConsole.Lua

namespace Heap

/-- Memory is short only where it is limited. -/
theorem limited_of_exceeds (h : Heap) {size : Nat} (short : h.exceeds size = true) : h.limit? ≠ none := by
  intro unlimited
  rw [exceeds, unlimited] at short
  cases short

theorem limited_of_isExhausted (h : Heap) (short : h.isExhausted = true) : h.limit? ≠ none := by
  intro unlimited
  rw [isExhausted, unlimited] at short
  cases short

end Heap

namespace Machine

variable {host : Host} {m : Machine}

/-- A run is so many steps: a machine that does nothing any more stays as it is. -/
theorem run_eq_iterate (host : Host) (fuel : Nat) (m : Machine) :
    m.run host fuel = (step host)^[fuel] m := by
  induction fuel generalizing m with
  | zero => rfl
  | succ fuel ih =>
    unfold run
    rw [Function.iterate_succ_apply]
    by_cases stopped : m.hasStopped = true
    · rw [if_pos stopped, step_stopped host stopped]
      exact (Function.iterate_fixed (step_stopped host stopped) fuel).symm
    · rw [if_neg stopped, ih]

/-- Where some steps lead to a machine that does nothing any more, a longer run stays there. -/
theorem run_eq_of_stopped {k fuel : Nat} (upTo : k ≤ fuel) (stopped : ((step host)^[k] m).hasStopped = true) :
    m.run host fuel = (step host)^[k] m := by
  obtain ⟨more, rfl⟩ := Nat.exists_eq_add_of_le upTo
  rw [run_eq_iterate, Nat.add_comm, Function.iterate_add_apply]
  exact Function.iterate_fixed (step_stopped host stopped) more

theorem run_eq_of_ended {k fuel : Nat} (upTo : k ≤ fuel) (ended : ((step host)^[k] m).hasEnded = true) :
    m.run host fuel = (step host)^[k] m :=
  run_eq_of_stopped upTo (hasStopped_of_hasEnded ended)

/-- A machine that ends twice ends in the same way. -/
theorem iterate_eq_of_ended {a b : Nat} (first : ((step host)^[a] m).hasEnded = true)
    (second : ((step host)^[b] m).hasEnded = true) : (step host)^[a] m = (step host)^[b] m := by
  obtain upTo | upTo := Nat.le_total a b
  · rw [← run_eq_of_ended upTo first, run_eq_iterate]
  · rw [← run_eq_of_ended upTo second, run_eq_iterate]

theorem iterate_grows (host : Host) (n : Nat) (m : Machine) : m.heap.Grows ((step host)^[n] m).heap := by
  rw [← run_eq_iterate]
  exact run_grows host n m

/-- The heap of a machine that ends grows up to its end, and stays as it is then. -/
theorem grows_of_ended {N : Nat} (ended : ((step host)^[N] m).hasEnded = true) (j : Nat) :
    ((step host)^[j] m).heap.Grows ((step host)^[N] m).heap := by
  obtain ⟨more, rfl⟩ | ⟨more, rfl⟩ := (Nat.le_total j N).imp Nat.exists_eq_add_of_le Nat.exists_eq_add_of_le
  · rw [Nat.add_comm, Function.iterate_add_apply]
    exact iterate_grows host more _
  · rw [Nat.add_comm, Function.iterate_add_apply, Function.iterate_fixed (step_ended host ended) more]
    exact .refl _

/-- A function of the language for which there is room is carried out unless memory is short. -/
theorem enterClosure_cases (m : Machine) {r : Nat} {c : Closure} (closure : m.heap.closures[r]? = some c)
    (args : List Value) (fits : m.room + c.proto.slots + c.proto.cells + 4 ≤ maxRoom) :
    let taken := m.room + c.proto.slots + c.proto.cells + 4
    let bound := bindParams c.proto.params args m.heap (Array.replicate c.proto.slots .nil)
      (Array.replicate c.proto.cells 0)
    (m.heap.exceeds (16 * taken) = true ∧
      m.enterClosure r args = { m with focus := .raise memoryError, room := taken }) ∨
      m.enterClosure r args = { m with
        focus := .exec c.proto.body
        act := ⟨c.proto.chunk, c.carried, bound.2.1, bound.2.2.1,
          if c.proto.isVararg then bound.2.2.2 else []⟩
        heap := bound.1, room := taken } := by
  have held : m.heap.closures.getD r default = c := by
    rw [Array.getD_eq_getD_getElem?, closure]
    rfl
  -- There is room, so it does not matter whether an error is being handled.
  have roomy : ∀ b : Bool,
      ¬ (decide (m.room + c.proto.slots + c.proto.cells + 4 > maxRoom) && b) = true := by
    intro b
    rw [decide_eq_false (Nat.not_lt.2 fits), Bool.false_and]
    exact Bool.false_ne_true
  simp only [enterClosure, held, if_neg (roomy _)]
  split
  · rename_i exceeded
    exact .inl ⟨exceeded, rfl⟩
  · exact .inr rfl

end Machine

namespace Runner

open Machine

/-- The function that raises an error again, with the functions that it holds. -/
def finishClosure : Closure := ⟨finish, #[.value (.builtin (.base .error))]⟩

/-- The function that calls chunks, with the functions that it holds. -/
def callerClosure (f h : Nat) : Closure :=
  ⟨caller, #[.value (.closure f), .value (.builtin (.base .xpcall)), .value (.closure h)]⟩

/-- Whether a value is the helper, which holds the functions of the library that it needs. -/
structure IsHelper (heap : Heap) (c f h : Nat) : Prop where
  caller : heap.closures[c]? = some (callerClosure f h)
  finish : heap.closures[f]? = some finishClosure
  handler : heap.closures[h]? = some handlerClosure

variable {host : Host} {heap : Heap} {c f h k depth room thread : Nat} {threads : Array ThreadState}
  {act : Activation} {w : Value} {vs : List Value}

/-- The helper stays what it is while functions are added. -/
theorem IsHelper.of_closures {heap' : Heap} (helper : IsHelper heap c f h)
    (closures : heap.closures.toList <+: heap'.closures.toList) : IsHelper heap' c f h := by
  have kept : ∀ {r : Nat} {x : Closure}, heap.closures[r]? = some x → heap'.closures[r]? = some x := by
    intro r x found
    obtain ⟨more, split⟩ := closures
    rw [← Array.getElem?_toList] at found ⊢
    obtain ⟨inside, -⟩ := List.getElem?_eq_some_iff.1 found
    rw [← split, List.getElem?_append_left inside]
    exact found
  exact ⟨kept helper.caller, kept helper.finish, kept helper.handler⟩

theorem IsHelper.grows {heap' : Heap} (helper : IsHelper heap c f h) (grows : heap.Grows heap') :
    IsHelper heap' c f h := helper.of_closures grows.closures

/-- The helper as it runs for a chunk. -/
def calling (f h k : Nat) : Activation := ⟨chunk, (callerClosure f h).carried, #[.closure k], #[], []⟩

/-- What waits for the end of a chunk. -/
def awaiting (f h k : Nat) : List Frame :=
  [.caller (calling f h k) 19 (.code (.carried 1 "xpcall".toUTF8)) .all 5, .more [] [],
    .call (.closure f) (.code (.carried 0 "finish".toUTF8)) 19 .tail]

/-- The stack above which a chunk runs: its errors are caught and handled. -/
def guarded (f h k : Nat) : List Frame := .protect (some (.closure h)) 0 5 :: awaiting f h k

/-- The machine that enters a chunk. -/
def entering (heap : Heap) (f h k thread : Nat) (threads : Array ThreadState) : Machine :=
  ⟨.enter (.closure k) [], default, guarded f h k, heap, 1, 5, thread, threads, []⟩

/-- Whether there is no memory for a function of the helper. -/
def IsShort (heap : Heap) : Prop := heap.exceeds 80 = true

/-- The helper enters the chunk, unless memory is short. -/
theorem step_calling (host : Host) {m : Machine} (helper : IsHelper heap c f h)
    (begins : m = ⟨.enter (.closure c) [.closure k], act, [], heap, 0, 0, thread, threads, []⟩) :
    (IsShort heap ∧ (step host)^[3] m = ⟨.failed memoryError, act, [], heap, 0, 5, thread, threads, []⟩) ∨
      (step host)^[6] m = entering heap f h k thread threads := by
  have first : step host m = enterClosure ⟨.done, act, [], heap, 0, 0, thread, threads, []⟩ c [.closure k] := by
    rw [begins]
    rfl
  have fits : 0 + 1 + 0 + 4 ≤ maxRoom := by decide
  obtain ⟨short, fails⟩ | goes := enterClosure_cases ⟨.done, act, [], heap, 0, 0, thread, threads, []⟩
    helper.caller [.closure k] fits
  · refine .inl ⟨short, ?_⟩
    rw [Function.iterate_succ_apply, first, fails]
    rfl
  · right
    rw [Function.iterate_succ_apply, first, goes]
    rfl

/-- The function that goes on after a chunk, as it runs for a result. -/
def finishing (ok : Value) (vs : List Value) : Activation :=
  ⟨chunk, finishClosure.carried, #[ok], #[], vs⟩

/-- After a chunk the helper goes on with its result, unless memory is short. -/
theorem step_awaiting (helper : IsHelper heap c f h) (ok : Value) (vs : List Value) :
    (IsShort heap ∧
      (step host)^[5] ⟨.give (ok :: vs), act, awaiting f h k, heap, 0, 5, thread, threads, []⟩ =
        ⟨.failed memoryError, calling f h k, [], heap, 0, 5, thread, threads, []⟩) ∨
    (step host)^[3] ⟨.give (ok :: vs), act, awaiting f h k, heap, 0, 5, thread, threads, []⟩ =
      ⟨.exec finish.body, finishing ok vs, [], heap, 0, 5, thread, threads, []⟩ := by
  have first :
      (step host)^[3] ⟨.give (ok :: vs), act, awaiting f h k, heap, 0, 5, thread, threads, []⟩ =
        enterClosure ⟨.done, calling f h k, [], heap, 0, 0, thread, threads, []⟩ f (ok :: vs) := rfl
  have fits : 0 + 1 + 0 + 4 ≤ maxRoom := by decide
  obtain ⟨short, fails⟩ | goes := enterClosure_cases ⟨.done, calling f h k, [], heap, 0, 0, thread, threads, []⟩
    helper.finish (ok :: vs) fits
  · refine .inl ⟨short, ?_⟩
    rw [Function.iterate_add_apply _ 2 3, first, fails]
    rfl
  · right
    rw [first, goes]
    rfl

/-- A raised value goes with the place of no level before it. -/
theorem raiseLevel_zero (m : Machine) (v : Value) : m.raiseLevel v 0 = m.raise v := by
  have level : ¬ (0 : Int64) > 0 := by decide
  cases v with
  | string s => simp only [raiseLevel, if_neg level]
  | _ => rfl

/-- What goes on in place of an error is raised again where nothing catches it. -/
theorem step_finishing_failed (host : Host) (w : Value) :
    ∃ act stack, (step host)^[13] ⟨.exec finish.body, finishing (.bool false) [w], [], heap, 0, 5, thread,
      threads, []⟩ = ⟨.failed w, act, stack, heap, 0, 5, thread, threads, []⟩ := by
  have raised : ∃ act waiting, (step host)^[11] ⟨.exec finish.body, finishing (.bool false) [w], [], heap, 0,
      5, thread, threads, []⟩ = raiseLevel ⟨.done, act, [.caller waiting 15
        (.code (.carried 0 "error".toUTF8)) .none 5], heap, 0, 5, thread, threads, []⟩ w 0 := ⟨_, _, rfl⟩
  obtain ⟨act, waiting, raised⟩ := raised
  rw [Function.iterate_add_apply _ 2 11, raised, raiseLevel_zero]
  exact ⟨_, _, rfl⟩

/-- The values of a chunk are given back. -/
theorem step_finishing_returned (host : Host) (vs : List Value) :
    ∃ act stack, (step host)^[10] ⟨.exec finish.body, finishing (.bool true) vs, [], heap, 0, 5, thread,
      threads, []⟩ = ⟨.finished vs, act, stack, heap, 0, 5, thread, threads, []⟩ :=
  ⟨_, _, rfl⟩

/-- How the helper ends with a result of the chunk: it gives back the values, or raises what goes on in place of the
error. -/
inductive Concludes : Value → List Value → Focus → Prop where
  | returned (vs : List Value) : Concludes (.bool true) vs (.finished vs)
  | failed (w : Value) : Concludes (.bool false) [w] (.failed w)

theorem Concludes.exists_steps {ok : Value} {vs : List Value} {focus : Focus} (concludes : Concludes ok vs focus)
    (host : Host) (heap : Heap) (thread : Nat) (threads : Array ThreadState) :
    ∃ n m, (step host)^[n] ⟨.exec finish.body, finishing ok vs, [], heap, 0, 5, thread, threads, []⟩ = m ∧
      m.focus = focus ∧ m.hasEnded = true := by
  cases concludes with
  | returned vs =>
    obtain ⟨act, stack, returned⟩ : ∃ act stack, (step host)^[10] ⟨_, finishing (.bool true) vs, [], heap, 0, 5,
        thread, threads, []⟩ = ⟨.finished vs, act, stack, heap, 0, 5, thread, threads, []⟩ :=
      step_finishing_returned host vs
    exact ⟨10, _, returned, rfl, rfl⟩
  | failed w =>
    obtain ⟨act, stack, failed⟩ : ∃ act stack, (step host)^[13] ⟨_, finishing (.bool false) [w], [], heap, 0, 5,
        thread, threads, []⟩ = ⟨.failed w, act, stack, heap, 0, 5, thread, threads, []⟩ :=
      step_finishing_failed host w
    exact ⟨13, _, failed, rfl, rfl⟩

/-- A run that gives the helper a result of the chunk ends with what the helper makes of it, unless memory is short. -/
theorem focus_of_given {m : Machine} (helper : IsHelper m.heap c f h) {N n : Nat}
    (ended : ((step host)^[N] m).hasEnded = true) {ok : Value} {vs : List Value} {focus : Focus}
    (concludes : Concludes ok vs focus) (grows : m.heap.Grows heap)
    (given : (step host)^[n] m = ⟨.give (ok :: vs), act, awaiting f h k, heap, 0, 5, thread, threads, []⟩) :
    ((∃ j, IsShort ((step host)^[j] m).heap) ∧ ((step host)^[N] m).focus = .failed memoryError) ∨
      ((step host)^[N] m).focus = focus := by
  obtain ⟨short, fails⟩ | goes : (_ ∧
      (step host)^[5] ⟨.give (ok :: vs), act, awaiting f h k, heap, 0, 5, thread, threads, []⟩ = _) ∨
      (step host)^[3] ⟨.give (ok :: vs), act, awaiting f h k, heap, 0, 5, thread, threads, []⟩ = _ :=
    step_awaiting (helper.grows grows) ok vs
  · refine .inl ⟨⟨n, by rw [given]; exact short⟩, ?_⟩
    rw [← given, ← Function.iterate_add_apply] at fails
    rw [iterate_eq_of_ended ended (by rw [fails]; rfl), fails]
  · right
    obtain ⟨q, last, steps, same, isEnd⟩ := concludes.exists_steps host heap thread threads
    rw [← goes, ← given, ← Function.iterate_add_apply, ← Function.iterate_add_apply] at steps
    rw [iterate_eq_of_ended ended (by rw [steps]; exact isEnd), steps, same]

/-- A chunk that is called by the helper and ends: its values are given back, or what goes on in place of
its last error is raised, unless memory is short. -/
theorem ends_of_entering (helper : IsHelper heap c f h) {N : Nat}
    (ended : ((step host)^[N] (entering heap f h k thread threads)).hasEnded = true) :
    let m := entering heap f h k thread threads
    ((∃ j, IsShort ((step host)^[j] m).heap) ∧ ((step host)^[N] m).focus = .failed memoryError) ∨
      ∃ n, (∀ j, j ≤ n → Above [] (guarded f h k) ((step host)^[j] m)) ∧
        ¬ Above [] (guarded f h k) ((step host)^[n + 1] m) ∧
        ((∃ vs, Arrives [] (guarded f h k) ((step host)^[n] m) vs ∧
          ((step host)^[N] m).focus = .finished vs) ∨
        ∃ w, Escapes [] (guarded f h k) ((step host)^[n] m) w ∧
          ((step host)^[N] m).focus = .failed w) := by
  intro m
  -- The step out of the chunk takes the place that catches its errors off, and gives the helper a result.
  obtain ⟨n, -, above, out, ⟨vs, arrives⟩ | ⟨w, last, same, escapes, caught⟩⟩ :=
    exists_exit (m := m) rfl rfl Bool.false_ne_true ended
  · have given : ∃ act heap' thread threads, m.heap.Grows heap' ∧ (step host)^[n + 1] m =
        ⟨.give (.bool true :: vs), act, awaiting f h k, heap', 0, 5, thread, threads, []⟩ := by
      have grows := iterate_grows host n m
      rw [Function.iterate_succ_apply']
      generalize (step host)^[n] m = x at arrives grows
      obtain ⟨focus, act, stack, heap', depth, room, thread, threads, resumers⟩ := x
      obtain ⟨rfl, rfl, rfl⟩ := arrives
      exact ⟨act, heap', thread, threads, grows, rfl⟩
    obtain ⟨act, heap', thread, threads, grows, given⟩ := given
    obtain short | returned := focus_of_given helper ended (.returned vs) grows given
    · exact .inl short
    · exact .inr ⟨n, above, out, .inl ⟨vs, arrives, returned⟩⟩
  · have given : ∃ act heap' thread threads, m.heap.Grows heap' ∧ (step host)^[n + 1] m =
        ⟨.give [.bool false, w], act, awaiting f h k, heap', 0, 5, thread, threads, []⟩ := by
      have grows := iterate_grows host n m
      rw [← same] at grows
      rw [caught]
      obtain ⟨focus, act, stack, heap', depth, room, thread, threads, resumers⟩ := last
      obtain ⟨rfl, -⟩ := escapes
      exact ⟨act, heap', thread, threads, grows, rfl⟩
    obtain ⟨act, heap', thread, threads, grows, given⟩ := given
    obtain short | failed := focus_of_given helper ended (.failed w) grows given
    · exact .inl short
    · exact .inr ⟨n, above, out, .inr ⟨w, same ▸ escapes, failed⟩⟩

end Runner

end VaultConsole.Lua
