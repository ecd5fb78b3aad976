import VaultConsole.Proofs.Messages
import VaultConsole.Proofs.Runner.Evaluation

/-!
# Sessions and their helper

A session keeps its helper: what it does for a chunk or for the host only adds functions to its heap, and
leaves its tables lawful (`Continues`). So what the helper holds is what it held from the start, and a failed
evaluation is told under the message of what the handler made of the last raised value.
-/

namespace VaultConsole.Lua

namespace Session

variable {host : Host} {s s' s'' : Session}

/-! ## What a session keeps -/

/-- A later state of a session: the helper is the same value, no function has changed, and tables find all
that they keep. -/
structure Continues (s s' : Session) : Prop where
  runner : s'.runner = s.runner
  closures : s.heap.closures.toList <+: s'.heap.closures.toList
  tables : s.heap.Lawful → s'.heap.Lawful

theorem Continues.refl (s : Session) : Continues s s := ⟨rfl, List.prefix_rfl, id⟩

theorem Continues.trans (a : Continues s s') (b : Continues s' s'') : Continues s s'' :=
  ⟨b.runner.trans a.runner, a.closures.trans b.closures, b.tables ∘ a.tables⟩

theorem continues_perform (host : Host) (s : Session) (a : Action (List Value)) :
    Continues s (s.perform host a).1 := by
  let bottom : Frame := .native .nil pure 0 0
  let m := Machine.runNative host ⟨.done, default, [bottom], s.heap, 0, 0, 0, s.threads, []⟩ .nil a
  have after : (s.perform host a).1 =
      ⟨(m.run host patience).heap, (m.run host patience).threads, s.runner⟩ := rfl
  have begins : s.heap.Grows m.heap := (Machine.pushes_runNative host
    ⟨.done, default, [bottom], s.heap, 0, 0, 0, s.threads, []⟩ .nil a).heap
  have grows := begins.trans (Machine.run_grows host patience m)
  rw [after]
  exact ⟨rfl, grows.closures, grows.tables⟩

theorem continues_tellErrorWithin (host : Host) (fuel : Nat) (s : Session) (v : Value) :
    Continues s (tellErrorWithin host fuel s v).1 := by
  induction fuel generalizing s v with
  | zero => exact .refl s
  | succ fuel ih =>
    rw [tellErrorWithin]
    have performed := continues_perform host s (Library.tellText v)
    generalize s.perform host (Library.tellText v) = result at performed
    split
    · exact .refl s
    · split
      · exact performed.trans (ih _ _)
      · exact performed.trans (ih _ _)
      · exact performed
      · exact performed

theorem continues_tellError (host : Host) (s : Session) (v : Value) :
    Continues s (s.tellError host v).1 := continues_tellErrorWithin host _ s v

theorem continues_afterwards (host : Host) (s : Session) (p : Proto) :
    Continues s (s.afterwards host p) := by
  have added : s.cleared.Grows (s.evaluator p).heap := s.cleared.grows_newChunk p _
  have grows := added.trans (Machine.run_grows host patience (s.evaluator p))
  exact ⟨rfl, grows.closures, grows.tables⟩

theorem continues_evaluate (host : Host) (s : Session) (name source : String) :
    Continues s (s.evaluate host name source).1 := by
  cases compiled : compile s.heap.dumped name source with
  | error cause =>
    obtain ⟨heap, threads, runner⟩ := s
    simp only [evaluate, compiled]
    exact ⟨rfl, List.prefix_rfl, id⟩
  | ok p =>
    rw [evaluate_compiled host compiled]
    have ran := continues_afterwards host s p
    cases s.outcome host p with
    | returned vs => exact ran
    | raised v => exact ran.trans (continues_tellError host _ v)
    | absent => exact ran

theorem continues_execute (host : Host) (s : Session) (name source : String) :
    Continues s (s.execute host name source).1 := by
  have evaluated := continues_evaluate host s name source
  unfold execute
  generalize s.evaluate host name source = result at evaluated
  obtain ⟨s', outcome?⟩ := result
  cases outcome? with
  | none => exact evaluated
  | some outcome =>
    cases outcome with
    | ok vs => exact evaluated
    | error e => exact evaluated

theorem continues_banner (host : Host) (s : Session) : Continues s (s.banner host).1 := by
  unfold banner
  simp only []
  generalize performed : perform host _ _ = result
  have kept : Continues s result.1 := by
    rw [← performed]
    have begins : s.Continues { s with heap := { s.heap with logged := [], calls := [] } } :=
      ⟨rfl, List.prefix_rfl, id⟩
    exact begins.trans (continues_perform host _ _)
  obtain ⟨s', found⟩ := result
  cases found with
  | returned vs => exact kept
  | raised e => exact kept.trans (continues_tellError host s' e)
  | absent => exact kept

/-! ## The helper of a session -/

/-- The helper of a session holds the functions of the library that it needs. -/
def HasHelper (s : Session) : Prop := ∃ c f h, s.runner = .closure c ∧ Runner.IsHelper s.heap c f h

theorem HasHelper.continues (has : HasHelper s) (later : Continues s s') : HasHelper s' := by
  obtain ⟨c, f, h, runner, helper⟩ := has
  exact ⟨c, f, h, later.runner.trans runner, helper.of_closures later.closures⟩

/-- The machine of an evaluation after the helper has called the function of the chunk. -/
def entered (host : Host) (s : Session) (p : Proto) : Machine := (Machine.step host)^[6] (s.evaluator p)

/-- A value is the last one that an evaluation raises in its chunk and that nothing in the chunk catches; it
is raised so many steps after the chunk was entered. -/
def RaisesLast (host : Host) (s : Session) (p : Proto) (i : Nat) (v : Value) : Prop :=
  (s.entered host p).RaisesLast host [] (s.entered host p).stack i v

/-- What an evaluation goes on with in place of such a value. -/
def GoesOnAs (host : Host) (s : Session) (p : Proto) (i : Nat) (v w : Value) : Prop :=
  (s.entered host p).GoesOnAs host i v w

/-- What an evaluation fails with where memory is short or errors nest too deeply. -/
def Breaks (host : Host) (s : Session) (p : Proto) (w : Value) : Prop := (s.entered host p).Breaks host w

/-- A machine has no ending just if it has not ended. -/
theorem ending_eq_absent_iff (m : Machine) : ending m = .absent ↔ m.hasEnded = false := by
  rw [ending, Machine.hasEnded]
  cases m.focus with
  | _ => simp

theorem ending_of_failed {m : Machine} {w : Value} (failed : m.focus = .failed w) :
    ending m = .raised w := by
  rw [ending, failed]

theorem failed_of_ending {m : Machine} {w : Value} (ended : m.hasEnded = true)
    (raised : ending m = .raised w) : m.focus = .failed w := by
  rw [Machine.hasEnded] at ended
  rw [ending] at raised
  cases focus : m.focus with
  | failed e =>
    rw [focus] at raised
    rw [Ending.raised.inj raised]
  | finished vs =>
    rw [focus] at raised
    cases raised
  | _ =>
    rw [focus] at ended
    cases ended

/-- An evaluation that ends has called the chunk, unless there is no memory for the helper. -/
theorem evaluator_calls (host : Host) (has : HasHelper s) (p : Proto)
    (ended : ((s.evaluator p).run host patience).hasEnded = true) :
    (Runner.IsShort (s.entered host p).heap ∧ s.outcome host p = .raised memoryError) ∨
      ∃ heap c f h k thread threads, Runner.IsHelper heap c f h ∧
        s.entered host p = Runner.entering heap f h k thread threads ∧
        (s.evaluator p).run host patience = (Machine.step host)^[patience] (s.entered host p) ∧
        ((Machine.step host)^[patience] (s.entered host p)).hasEnded = true := by
  obtain ⟨c, f, h, runner, helper⟩ := has
  have grows : s.cleared.Grows (s.evaluator p).heap := s.cleared.grows_newChunk p _
  have held : Runner.IsHelper (s.evaluator p).heap c f h := helper.of_closures grows.closures
  have begins : s.evaluator p = ⟨.enter (.closure c)
      [.closure (s.cleared.newChunk p (.table s.cleared.globals)).2], default, [], (s.evaluator p).heap, 0, 0,
      s.threads.size, s.threads.push .active, []⟩ := by
    rw [← runner]
    rfl
  rw [Machine.run_eq_iterate] at ended
  obtain ⟨short, fails⟩ | calls := Runner.step_calling host held begins
  · have failed : ((Machine.step host)^[3] (s.evaluator p)).hasEnded = true := by
      rw [fails]
      rfl
    have stays : s.entered host p = (Machine.step host)^[3] (s.evaluator p) := by
      rw [entered, Function.iterate_add_apply _ 3 3]
      exact Function.iterate_fixed (Machine.step_ended host failed) 3
    refine .inl ⟨by rw [stays, fails]; exact short, ?_⟩
    rw [outcome, Machine.run_eq_iterate, Machine.iterate_eq_of_ended ended failed, fails]
    rfl
  · right
    -- An evaluation that has ended stays as it is, so a few more steps do not matter.
    have later : (Machine.step host)^[patience] (s.entered host p) =
        (Machine.step host)^[patience] (s.evaluator p) := by
      rw [entered, ← Function.iterate_add_apply, Nat.add_comm, Function.iterate_add_apply]
      exact Function.iterate_fixed (Machine.step_ended host ended) 6
    refine ⟨_, c, f, h, _, _, _, held, calls, ?_, ?_⟩
    · rw [later, Machine.run_eq_iterate]
    · rw [later]
      exact ended

/-- An evaluation that has ended fails with what the handler makes of the last value that was raised in the
chunk and that nothing there catches, unless memory is short or errors nest too deeply; and one that fails
has raised such a value. -/
theorem outcome_goesOnAs (host : Host) (has : HasHelper s) (p : Proto)
    (ended : ((s.evaluator p).run host patience).hasEnded = true) :
    (∀ i v, s.RaisesLast host p i v → ∃ w, s.GoesOnAs host p i v w ∧ s.outcome host p = .raised w) ∧
    ∀ w, s.outcome host p = .raised w → s.Breaks host p w ∨ ∃ i v, s.RaisesLast host p i v := by
  obtain ⟨short, fails⟩ | ⟨heap, c, f, h, k, thread, threads, helper, same, last, ended'⟩ :=
    evaluator_calls host has p ended
  · refine ⟨fun i v _ => ⟨_, .broken (.short ⟨0, short⟩), fails⟩, fun w raised => .inl ?_⟩
    obtain rfl := Ending.raised.inj (raised.symm.trans fails)
    exact .short ⟨0, short⟩
  · have begins : (s.entered host p).stack = Runner.guarded f h k := by
      rw [same]
      rfl
    -- What was raised last tells how the chunk fails, and failing tells that something was raised.
    constructor
    · intro i v raises
      unfold RaisesLast at raises
      rw [begins] at raises
      rw [same] at raises ended'
      obtain ⟨w, goes, failed⟩ := Runner.goesOnAs_of_raisesLast helper ended' raises
      rw [← same] at goes failed
      refine ⟨w, goes, ?_⟩
      rw [outcome, last]
      exact ending_of_failed failed
    · intro w raised
      rw [outcome, last] at raised
      have failing := failed_of_ending ended' raised
      rw [same] at ended' failing
      have raises := Runner.exists_raisesLast helper ended' failing
      rw [← same, ← begins] at raises
      exact raises

/-- The final outcome of the chunk of an evaluation, as the helper passes it on: the values that the chunk
returns, or what goes on in place of the last value that it raises and does not catch. -/
inductive Concludes (host : Host) (s : Session) (p : Proto) : Ending → Prop where
  | returned {vs : List Value} {m : Machine}
      (returns : Machine.Returns host [] (s.entered host p).stack (s.entered host p) vs m) :
      Concludes host s p (.returned vs)
  | raised {i : Nat} {v w : Value} (raises : s.RaisesLast host p i v) (goes : s.GoesOnAs host p i v w) :
      Concludes host s p (.raised w)
  | broken {w : Value} (breaks : s.Breaks host p w) : Concludes host s p (.raised w)

theorem returned_of_ending {m : Machine} {vs : List Value} (returned : ending m = .returned vs) :
    m.focus = .finished vs := by
  rw [ending] at returned
  cases focus : m.focus with
  | finished ws =>
    rw [focus] at returned
    rw [Ending.returned.inj returned]
  | _ =>
    rw [focus] at returned
    cases returned

/-- An evaluation that ends does so with the final outcome of its chunk. -/
theorem concludes_outcome (host : Host) (has : HasHelper s) (p : Proto)
    (ended : ((s.evaluator p).run host patience).hasEnded = true) :
    s.Concludes host p (s.outcome host p) := by
  obtain ⟨raised, raises⟩ := outcome_goesOnAs host has p ended
  cases outcome : s.outcome host p with
  | absent => exact absurd (ended.symm.trans ((ending_eq_absent_iff _).1 outcome)) Bool.false_ne_true.symm
  | raised w =>
    obtain breaks | ⟨i, v, last⟩ := raises w outcome
    · exact .broken breaks
    · obtain ⟨w', goes, same⟩ := raised i v last
      obtain rfl := Ending.raised.inj (outcome.symm.trans same)
      exact .raised last goes
  | returned vs =>
    obtain ⟨-, fails⟩ | ⟨heap, c, f, h, k, thread, threads, helper, same, last, ended'⟩ :=
      evaluator_calls host has p ended
    · cases outcome.symm.trans fails
    · rw [Session.outcome, last, same] at outcome
      have finished := returned_of_ending outcome
      rw [same] at ended'
      -- Results leave the helper only where the chunk has returned.
      obtain ⟨-, failed⟩ | ⟨n, above, -, ⟨ws, arrives, given⟩ | ⟨w, -, failed⟩⟩ :=
        Runner.ends_of_entering helper ended'
      · cases finished.symm.trans failed
      · obtain rfl := Focus.finished.inj (finished.symm.trans given)
        have returns := Machine.returns_of_exit above arrives
        have stack : (s.entered host p).stack = Runner.guarded f h k := by
          rw [same]
          rfl
        exact .returned (by rw [stack, same]; exact returns)
      · cases finished.symm.trans failed

end Session

end VaultConsole.Lua
