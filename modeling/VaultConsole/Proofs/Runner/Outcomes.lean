import VaultConsole.Proofs.Runner.Calls

/-!
# Outcomes of chunks

How an evaluation ends, read off its chunk (`Session.outcome_of_given`). Where memory is limited, the helper may
find too little of it before the chunk begins or after it has given its values, and the chunk may run out of it
(`Session.outcome_of_short`); then the evaluation fails for lack of memory, and in no other way.
-/

namespace VaultConsole.Lua

/-- The function of a chunk without cells of its own. -/
def chunkOf (name : ByteArray) (slots : Nat) (body : List Step) : Proto :=
  .mk name [] true slots 0 [(.carried 0, environmentName)] body

namespace Machine

/-- An error goes through frames that it passes. -/
theorem unwindTo_append {passed : List Frame} (passes : ∀ f ∈ passed, f.isPassed) (m : Machine) (e : Value)
    (rest : List Frame) : unwindTo m e (passed ++ rest) = unwindTo m e rest := by
  induction passed with
  | nil => rfl
  | cons f fs ih =>
    have others := ih fun g member => passes g (List.mem_cons_of_mem _ member)
    have top := passes f List.mem_cons_self
    cases f with
    | protect h depth room => cases top
    | closing v line => cases top
    | _ => exact others

end Machine

namespace Session

variable {host : Host} {s : Session} {p : Proto} {c f h k n depth room thread : Nat} {heap : Heap}
  {act : Activation} {threads : Array ThreadState} {vs : List Value}

/-- Whether an evaluation fails for lack of memory, which is limited. -/
def RunsShort (host : Host) (s : Session) (p : Proto) : Prop :=
  s.heap.limit? ≠ none ∧ s.outcome host p = .raised memoryError

/-- The limit on memory is that of the session, however far an evaluation has come. -/
theorem limit_evaluator (host : Host) (s : Session) (p : Proto) (n : Nat) :
    ((Machine.step host)^[n] (s.evaluator p)).heap.limit? = s.heap.limit? := by
  have begins : s.cleared.Grows (s.evaluator p).heap := s.cleared.grows_newChunk p _
  exact (begins.trans (Machine.iterate_grows host n (s.evaluator p))).limit

/-- An evaluation that has ended has this outcome and leaves this heap. -/
theorem outcome_of_ended (host : Host) (s : Session) (p : Proto) (early : n ≤ patience)
    (ended : ((Machine.step host)^[n] (s.evaluator p)).hasEnded = true) :
    s.outcome host p = ending ((Machine.step host)^[n] (s.evaluator p)) ∧
      (s.afterwards host p).heap = ((Machine.step host)^[n] (s.evaluator p)).heap := by
  rw [outcome, afterwards, Machine.run_eq_of_ended early ended]
  exact ⟨rfl, rfl⟩

/-- After the chunk the helper goes on with its result, or memory is short. -/
theorem finishing_of_awaiting (helper : Runner.IsHelper heap c f h) (early : n + 5 ≤ patience) {ok : Value}
    (given : (Machine.step host)^[n] (s.evaluator p) =
      ⟨.give (ok :: vs), act, Runner.awaiting f h k, heap, 0, 5, thread, threads, []⟩) :
    s.RunsShort host p ∨ (Machine.step host)^[n + 3] (s.evaluator p) =
      ⟨.exec Runner.finish.body, Runner.finishing ok vs, [], heap, 0, 5, thread, threads, []⟩ := by
  generalize waits : Machine.mk (.give (ok :: vs)) act (Runner.awaiting f h k) heap 0 5 thread threads [] = m at given
  obtain ⟨short, fails⟩ | goes : (Runner.IsShort heap ∧ (Machine.step host)^[5] m = _) ∨
      (Machine.step host)^[3] m = _ := waits ▸ Runner.step_awaiting helper ok vs
  · rw [← given, ← Function.iterate_add_apply, Nat.add_comm] at fails
    have limit := limit_evaluator host s p n
    rw [given, ← waits] at limit
    have ended := outcome_of_ended host s p early (by rw [fails]; rfl)
    rw [fails] at ended
    exact .inl ⟨limit ▸ heap.limited_of_exceeds short, ended.1⟩
  · rw [← given, ← Function.iterate_add_apply, Nat.add_comm] at goes
    exact .inr goes

/-- What a chunk gives is the outcome, and its heap is left, or memory is short. -/
theorem outcome_of_given (helper : Runner.IsHelper heap c f h) (early : n + 14 ≤ patience)
    (given : (Machine.step host)^[n] (s.evaluator p) =
      ⟨.give vs, act, Runner.guarded f h k, heap, depth, room, thread, threads, []⟩) :
    s.RunsShort host p ∨ (s.outcome host p = .returned vs ∧ (s.afterwards host p).heap = heap) := by
  have passed : (Machine.step host)^[n + 1] (s.evaluator p) =
      ⟨.give (.bool true :: vs), act, Runner.awaiting f h k, heap, 0, 5, thread, threads, []⟩ := by
    rw [Function.iterate_succ_apply', given]
    rfl
  obtain short | goes := finishing_of_awaiting helper (Nat.le_trans (by omega) early) passed
  · exact .inl short
  · obtain ⟨act, stack, returned⟩ : ∃ act stack, (Machine.step host)^[10] ⟨_, Runner.finishing (.bool true) vs, [],
        heap, 0, 5, thread, threads, []⟩ = ⟨.finished vs, act, stack, heap, 0, 5, thread, threads, []⟩ :=
      Runner.step_finishing_returned host vs
    rw [← goes, ← Function.iterate_add_apply, Nat.add_comm] at returned
    have ended := outcome_of_ended host s p early (by rw [returned]; rfl)
    rw [returned] at ended
    exact .inr ended

/-- A chunk in which memory runs out fails for that: the handler is not called. -/
theorem outcome_of_short (helper : Runner.IsHelper heap c f h) (limited : heap.limit? ≠ none)
    (early : n + 18 ≤ patience) {passed : List Frame} (passes : ∀ g ∈ passed, g.isPassed)
    (raised : (Machine.step host)^[n] (s.evaluator p) =
      ⟨.raise memoryError, act, passed ++ Runner.guarded f h k, heap, depth, room, thread, threads, []⟩) :
    s.RunsShort host p := by
  have limit := limit_evaluator host s p n
  rw [raised] at limit
  have found : Machine.handler? (passed ++ Runner.guarded f h k) = some (some (.closure h)) :=
    Machine.handler?_append passes _
  -- Lack of memory goes on without the handler, up to where the helper catches errors.
  have unwinds : (Machine.step host)^[n + 1] (s.evaluator p) =
      ⟨.unwind memoryError, act, passed ++ Runner.guarded f h k, heap, depth, room, thread, threads, []⟩ := by
    have same : (memoryError == memoryError) = true := beq_self_eq_true _
    rw [Function.iterate_succ_apply', raised]
    show Machine.handle ⟨.done, act, passed ++ Runner.guarded f h k, heap, depth, room, thread, threads, []⟩ _ = _
    simp only [Machine.handle, found, same, if_true]
  have caught : (Machine.step host)^[n + 1 + 1] (s.evaluator p) =
      ⟨.give [.bool false, memoryError], act, Runner.awaiting f h k, heap, 0, 5, thread, threads, []⟩ := by
    rw [Function.iterate_succ_apply', unwinds]
    show Machine.unwind host ⟨.done, act, passed ++ Runner.guarded f h k, heap, depth, room, thread, threads, []⟩
      _ = _
    simp only [Machine.unwind, found, Machine.unwindTo_append passes]
    rfl
  obtain short | goes := finishing_of_awaiting helper (Nat.le_trans (by omega) early) caught
  · exact short
  · obtain ⟨act, stack, failed⟩ : ∃ act stack, (Machine.step host)^[13] ⟨_, Runner.finishing (.bool false)
        [memoryError], [], heap, 0, 5, thread, threads, []⟩ =
          ⟨.failed memoryError, act, stack, heap, 0, 5, thread, threads, []⟩ :=
      Runner.step_finishing_failed host memoryError
    rw [← goes, ← Function.iterate_add_apply, Nat.add_comm] at failed
    have ended := outcome_of_ended host s p early (by rw [failed]; rfl)
    rw [failed] at ended
    exact ⟨limit ▸ limited, ended.1⟩

/-- The machine in which the helper has called the function of a chunk. -/
def begun (s : Session) (f h : Nat) (name : ByteArray) (slots : Nat) (body : List Step) : Machine :=
  ⟨.exec body, ⟨name, #[.cell s.heap.cells.size], Array.replicate slots .nil, #[], []⟩,
    Runner.guarded f h s.heap.closures.size, (s.evaluator (chunkOf name slots body)).heap, 1, 9 + slots,
    s.threads.size, s.threads.push .active, []⟩

/-- A chunk finds the globals of the session in its environment. -/
theorem readCarried_begun (s : Session) (f h : Nat) (name : ByteArray) (slots : Nat) (body : List Step) :
    (s.begun f h name slots body).readCarried 0 = .table s.heap.globals := by
  show (s.heap.cells.push (.table s.heap.globals)).getD s.heap.cells.size .nil = _
  rw [Array.getD_eq_getD_getElem?, Array.getElem?_push_size]
  rfl

/-- A chunk begins, or memory is short. -/
theorem begins_or_short (host : Host) {s : Session} {c f h slots : Nat} (runner : s.runner = .closure c)
    (helper : Runner.IsHelper s.heap c f h) (name : ByteArray) (fits : 9 + slots ≤ Machine.maxRoom)
    (body : List Step) : s.RunsShort host (chunkOf name slots body) ∨
      (Machine.step host)^[7] (s.evaluator (chunkOf name slots body)) = s.begun f h name slots body := by
  generalize same : (s.evaluator (chunkOf name slots body)).heap = heap
  have grows : s.cleared.Grows heap := by
    rw [← same]
    exact s.cleared.grows_newChunk (chunkOf name slots body) _
  have closure : heap.closures[s.heap.closures.size]? =
      some ⟨chunkOf name slots body, #[.cell s.heap.cells.size]⟩ := by
    rw [← same]
    exact Array.getElem?_push_size
  have begins : s.evaluator (chunkOf name slots body) = ⟨.enter (.closure c) [.closure s.heap.closures.size],
      default, [], heap, 0, 0, s.threads.size, s.threads.push .active, []⟩ := by
    rw [← runner, ← same]
    rfl
  have held := helper.of_closures grows.closures
  -- Memory may be short when the helper calls the chunk, and when the chunk is entered.
  obtain ⟨short, fails⟩ | calls := Runner.step_calling host held begins
  · have ended := outcome_of_ended host s (chunkOf name slots body) (n := 3) (by decide)
      (by rw [fails]; rfl)
    rw [fails] at ended
    exact .inl ⟨fun unlimited => heap.limited_of_exceeds short (grows.limit.trans unlimited), ended.1⟩
  have first : Machine.step host (Runner.entering heap f h s.heap.closures.size s.threads.size
      (s.threads.push .active)) = Machine.enterClosure ⟨.done, default, Runner.guarded f h s.heap.closures.size,
        heap, 1, 5, s.threads.size, s.threads.push .active, []⟩ s.heap.closures.size [] := rfl
  have room : 5 + slots + 0 + 4 = 9 + slots := by omega
  obtain ⟨exceeds, short⟩ | goes := Machine.enterClosure_cases ⟨.done, default,
    Runner.guarded f h s.heap.closures.size, heap, 1, 5, s.threads.size, s.threads.push .active, []⟩ closure []
    (Nat.le_trans (Nat.le_of_eq room) fits)
  · have raised : (Machine.step host)^[7] (s.evaluator (chunkOf name slots body)) = ⟨.raise memoryError, default,
        [] ++ Runner.guarded f h s.heap.closures.size, heap, 1, 9 + slots, s.threads.size, s.threads.push .active,
        []⟩ := by
      rw [Function.iterate_succ_apply', calls, first, short, ← room]
      rfl
    have early : 7 + 18 ≤ patience := by decide
    exact .inl (outcome_of_short held (heap.limited_of_exceeds exceeds) early (by simp) raised)
  · right
    rw [Function.iterate_succ_apply', calls, first, goes, begun, same, ← room]
    rfl

end Session

end VaultConsole.Lua
