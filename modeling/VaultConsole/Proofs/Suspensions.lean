import Mathlib.Logic.Relation
import VaultConsole.Proofs.Banner
import VaultConsole.Proofs.ChunkNames
import VaultConsole.Proofs.Vault.Waiting

/-!
# Executions that are suspended

Whoever executes a source drives its machine: a machine that is suspended hands something out, and is polled until
it is resumed (`Task.Step`). How often it is polled before that is decided outside, anew for each suspension. But for
the polls a task takes the steps of its machine (`Task.Step.machine`), so it comes to the end of the machine and to
nothing else (`Task.reaches_ended_iff`), and an execution responds as if it had never been suspended
(`Engine.Awaits`).
-/

namespace VaultConsole

open Lua

namespace Lua

/-! ## Tasks -/

/-- A call as it is driven from outside. -/
inductive Task where
  | running (m : Machine)
  /-- It is suspended, and is polled so many times before it is resumed. -/
  | suspended (s : Suspension) (polls : Nat) (m : Machine)
  | ended (m : Machine)

namespace Task

/-- A step of a task. -/
inductive Step (o : Outside) : Task → Task → Prop where
  | goes {m : Machine} (awake : ∀ s m', ¬ m.Suspends o s m') (busy : m.hasEnded = false) :
    Step o (.running m) (.running (m.step o.host))
  | suspends {m m' : Machine} {s : Suspension} (polls : Nat) (suspends : m.Suspends o s m') :
    Step o (.running m) (.suspended s polls m')
  | waits (s : Suspension) (polls : Nat) (m : Machine) :
    Step o (.suspended s (polls + 1) m) (.suspended s polls m)
  | resumes (s : Suspension) (m : Machine) : Step o (.suspended s 0 m) (.running (s.resumed o m))
  | ends {m : Machine} (ended : m.hasEnded = true) : Step o (.running m) (.ended m)

/-- A task comes to be another one. -/
def Reaches (o : Outside) : Task → Task → Prop := Relation.ReflTransGen (Step o)

/-- The machine with which a task goes on. -/
def machine (o : Outside) : Task → Machine
  | .running m => m
  | .suspended s _ m => s.resumed o m
  | .ended m => m

variable {o : Outside} {t t' : Task} {m m' : Machine} {s : Suspension} {k n : Nat}

/-- The machine of a task stays or takes its next step. -/
theorem Step.machine (step : Step o t t') :
    t'.machine o = t.machine o ∨ t'.machine o = (t.machine o).step o.host := by
  cases step with
  | goes => exact .inr rfl
  | suspends polls suspends => exact .inr (Outside.step_of_suspends suspends).symm
  | waits => exact .inl rfl
  | resumes => exact .inl rfl
  | ends => exact .inl rfl

theorem Reaches.machine (reaches : Reaches o t t') :
    ∃ k, t'.machine o = (Machine.step o.host)^[k] (t.machine o) := by
  induction reaches with
  | refl => exact ⟨0, rfl⟩
  | tail _ step ih =>
    obtain ⟨k, same⟩ := ih
    obtain stays | goes := step.machine
    · exact ⟨k, stays.trans same⟩
    · exact ⟨k + 1, by rw [goes, same, Function.iterate_succ_apply']⟩

/-- A task that has ended was ended by the end of its machine. -/
theorem Reaches.hasEnded (reaches : Reaches o (.running m) (.ended m')) : m'.hasEnded = true := by
  cases reaches with
  | tail _ step =>
    cases step with
    | ends ended => exact ended

/-- Only the end of a task is no step to another one. -/
theorem exists_step (o : Outside) (t : Task) : (∃ m, t = .ended m) ∨ ∃ t', Step o t t' := by
  cases t with
  | ended m => exact .inl ⟨m, rfl⟩
  | suspended s polls m =>
    cases polls with
    | zero => exact .inr ⟨_, .resumes s m⟩
    | succ polls => exact .inr ⟨_, .waits s polls m⟩
  | running m =>
    right
    by_cases awake : ∀ s m', ¬ m.Suspends o s m'
    · cases ended : m.hasEnded with
      | true => exact ⟨_, .ends ended⟩
      | false => exact ⟨_, .goes awake ended⟩
    · simp only [not_forall, not_not] at awake
      obtain ⟨s, m', suspends⟩ := awake
      exact ⟨_, .suspends 0 suspends⟩

/-! ## The end of a task -/

theorem acc_ended (o : Outside) (m : Machine) : Acc (fun t' t => Step o t t') (.ended m) :=
  .intro _ fun _ step => nomatch step

/-- A suspension lasts for its polls. -/
theorem acc_suspended (resumed : Acc (fun t' t => Step o t t') (.running (s.resumed o m))) (polls : Nat) :
    Acc (fun t' t => Step o t t') (.suspended s polls m) := by
  induction polls with
  | zero =>
    refine .intro _ fun t' step => ?_
    cases step with
    | resumes => exact resumed
  | succ polls ih =>
    refine .intro _ fun t' step => ?_
    cases step with
    | waits => exact ih

/-- However long the suspensions last, a task ends if its machine does. -/
theorem acc_running (ended : ((Machine.step o.host)^[n] m).hasEnded = true) :
    Acc (fun t' t => Step o t t') (.running m) := by
  -- Induction on the steps that the machine takes to its end.
  induction n generalizing m with
  | zero =>
    refine .intro _ fun t' step => ?_
    cases step with
    | goes awake busy => exact absurd (busy.symm.trans ended) Bool.false_ne_true
    | suspends polls suspends => exact absurd (suspends.hasEnded.symm.trans ended) Bool.false_ne_true
    | ends => exact acc_ended o m
  | succ n ih =>
    have later : Acc (fun t' t => Step o t t') (.running (m.step o.host)) := ih ended
    refine .intro _ fun t' step => ?_
    cases step with
    | goes => exact later
    | suspends polls suspends =>
      rw [Outside.step_of_suspends suspends] at later
      exact acc_suspended later polls
    | ends => exact acc_ended o m

/-- A task that cannot go on for ever comes to an end. -/
theorem reaches_of_acc (acc : Acc (fun t' t => Step o t t') t) : ∃ m, Reaches o t (.ended m) := by
  induction acc with
  | intro t _ ih =>
    obtain ⟨m, rfl⟩ | ⟨t', step⟩ := exists_step o t
    · exact ⟨m, .refl⟩
    · obtain ⟨m, reaches⟩ := ih t' step
      exact ⟨m, .head step reaches⟩

/-- A task comes to the end of its machine, and to no other one. -/
theorem Reaches.eq_of_ended (reaches : Reaches o (.running m) (.ended m'))
    (ended : ((Machine.step o.host)^[n] m).hasEnded = true) : m' = (Machine.step o.host)^[n] m := by
  obtain ⟨k, same⟩ : ∃ k, m' = (Machine.step o.host)^[k] m := reaches.machine
  have here := reaches.hasEnded
  rw [same] at here ⊢
  exact Machine.iterate_eq_of_ended here ended

/-- From wherever a task has come, it goes on to the end of its machine. -/
theorem Reaches.ends (reaches : Reaches o (.running m) t)
    (ended : ((Machine.step o.host)^[n] m).hasEnded = true) :
    Reaches o t (.ended ((Machine.step o.host)^[n] m)) := by
  have acc : Acc (fun t' t => Step o t t') t := by
    induction reaches with
    | refl => exact acc_running ended
    | tail _ step ih => exact ih.inv step
  obtain ⟨m', later⟩ := reaches_of_acc acc
  obtain rfl := Reaches.eq_of_ended (reaches.trans later) ended
  exact later

theorem reaches_ended_iff (ended : ((Machine.step o.host)^[n] m).hasEnded = true) :
    Reaches o (.running m) (.ended m') ↔ m' = (Machine.step o.host)^[n] m := by
  constructor
  · exact fun reaches => reaches.eq_of_ended ended
  · rintro rfl
    exact Reaches.ends .refl ended

/-- A task passes through all steps of its machine, none of which is taken away by a suspension. -/
theorem reaches_iterate (busy : ((Machine.step o.host)^[k] m).hasEnded = false) :
    Reaches o (.running m) (.running ((Machine.step o.host)^[k] m)) := by
  induction k with
  | zero => exact .refl
  | succ k ih =>
    rw [Function.iterate_succ_apply'] at busy ⊢
    generalize (Machine.step o.host)^[k] m = x at busy ih
    have running : x.hasEnded = false := by
      by_contra ended
      rw [Machine.step_ended _ (eq_true_of_ne_false ended)] at busy
      exact ended busy
    refine (ih running).trans ?_
    by_cases awake : ∀ s m', ¬ x.Suspends o s m'
    · exact .single (.goes awake running)
    · simp only [not_forall, not_not] at awake
      obtain ⟨s, m', suspends⟩ := awake
      rw [Outside.step_of_suspends suspends]
      exact .tail (.single (.suspends 0 suspends)) (.resumes s m')

/-- A task is suspended where its machine is, for as long as it is kept waiting. -/
theorem reaches_suspended_iff :
    Reaches o (.running m) (.suspended s n m') ↔ ∃ k, ((Machine.step o.host)^[k] m).Suspends o s m' := by
  constructor
  · intro reaches
    generalize same : Task.suspended s n m' = t at reaches
    induction reaches generalizing n with
    | refl => cases same
    | tail before step ih =>
      subst same
      cases step with
      | suspends _ suspends =>
        obtain ⟨k, same⟩ := Reaches.machine before
        exact ⟨k, same ▸ suspends⟩
      | waits => exact ih rfl
  · rintro ⟨k, suspends⟩
    exact (reaches_iterate suspends.hasEnded).tail (.suspends n suspends)

/-- What a suspended task comes to is the suspension still, or comes after what it is resumed with. -/
theorem Reaches.of_suspended (reaches : Reaches o (.suspended s n m) t) :
    (∃ k, k ≤ n ∧ t = .suspended s k m) ∨ Reaches o (.running (s.resumed o m)) t := by
  induction reaches with
  | refl => exact .inl ⟨n, Nat.le_refl n, rfl⟩
  | tail _ step ih =>
    obtain ⟨k, upTo, rfl⟩ | later := ih
    · cases step with
      | waits s k m => exact .inl ⟨k, by omega, rfl⟩
      | resumes => exact .inr .refl
    · exact .inr (later.tail step)

end Task

/-! ## Evaluations -/

namespace Session

/-- What becomes of an evaluation whose machine has ended. -/
def concluded (host : Host) (s : Session) (m : Machine) : Session × Option (Except ScriptError Result) :=
  let after : Session := ⟨m.heap, m.threads.setIfInBounds m.thread .dead, s.runner⟩
  match ending m with
  | .returned vs => (after, some (.ok (result after.heap vs)))
  | .raised v =>
    let told := after.tellError host v
    (told.1, told.2.map .error)
  | .absent => (after, none)

theorem execute_eq_concluded (host : Host) {s : Session} {name source : String} {p : Proto}
    (compiled : compile s.heap.dumped name source = .ok p) :
    s.execute host name source = s.concluded host ((s.evaluator p).run host patience) := by
  rw [execute, evaluate_compiled host compiled, concluded, outcome, afterwards]
  cases ending ((s.evaluator p).run host patience) with
  | returned vs => rfl
  | raised v =>
    simp only []
    generalize tellError host _ v = told
    obtain ⟨after, error?⟩ := told
    cases error? with
    | none => rfl
    | some e => rfl
  | absent => rfl

/-- A suspended evaluation has captured the first of the lines that the evaluation prints, and loses none. -/
theorem lines_of_suspended {o : Outside} {s : Session} {p : Proto} {q : Suspension} {n : Nat} {m : Machine}
    (ended : ((s.evaluator p).run o.host patience).hasEnded = true)
    (reaches : Task.Reaches o (.running (s.evaluator p)) (.suspended q n m)) :
    m.heap.printed.lines <+: s.linesOf o.host p := by
  obtain ⟨k, same⟩ : ∃ k, q.resumed o m = (Machine.step o.host)^[k] (s.evaluator p) := reaches.machine
  rw [Machine.run_eq_iterate] at ended
  have later := Machine.grows_of_ended ended k
  rw [← same, ← Machine.run_eq_iterate] at later
  rw [← lines_afterwards]
  exact ⟨_, (Machine.lines_of_grows ((o.grows_resumed m q).trans later)).symm⟩

end Session

end Lua

namespace Engine

variable {e : Engine} {o : Outside} {source : String} {s : Session} {p : Proto}

/-! ## Executions -/

/-- How an execution that is driven may respond. If its source compiles, it responds when its task has ended, with
what becomes of the machine. -/
inductive Responds (e : Engine) (o : Outside) (source : String) :
    Response (Option (Except EngineError Result)) → Prop where
  | unready (absent : e.session? = none) : Responds e o source ⟨e, [], [], some (.error .notInitialized)⟩
  | uncompiled {s : Session} {cause : ScriptError} (session : e.session? = some s)
      (failed : Session.compile s.heap.dumped e.config.sourceName source = .error cause) :
      Responds e o source (e.executeBy (fun _ s => ({ s with heap := s.cleared }, some (.error cause))) source)
  | ended {s : Session} {p : Proto} {m : Machine} (session : e.session? = some s)
      (compiled : Session.compile s.heap.dumped e.config.sourceName source = .ok p)
      (reaches : Task.Reaches o (.running (s.evaluator p)) (.ended m)) :
      Responds e o source (e.executeBy (fun _ s => s.concluded o.host m) source)

theorem executeBy_congr {run run' : String → Session → Session × Option (Except ScriptError Result)}
    (session : e.session? = some s) (same : run e.config.sourceName s = run' e.config.sourceName s)
    (source : String) : e.executeBy run source = e.executeBy run' source := by
  obtain ⟨config, session?⟩ := e
  obtain rfl : session? = some s := session
  simp only [executeBy, same]

theorem responds_iff (session : e.session? = some s)
    (compiled : Session.compile s.heap.dumped e.config.sourceName source = .ok p)
    (ended : ((s.evaluator p).run o.host Session.patience).hasEnded = true)
    (r : Response (Option (Except EngineError Result))) :
    e.Responds o source r ↔ r = e.execute o source := by
  have concluded := Session.execute_eq_concluded o.host compiled
  rw [Machine.run_eq_iterate] at ended concluded
  have same : e.execute o source = e.executeBy (fun _ before => before.concluded o.host
      ((Machine.step o.host)^[Session.patience] (s.evaluator p))) source :=
    executeBy_congr session concluded source
  rw [same]
  constructor
  · intro responds
    cases responds with
    | unready absent => cases session.symm.trans absent
    | uncompiled session' failed =>
      obtain rfl := Option.some.inj (session.symm.trans session')
      cases compiled.symm.trans failed
    | ended session' compiled' reaches =>
      obtain rfl := Option.some.inj (session.symm.trans session')
      obtain rfl := Except.ok.inj (compiled.symm.trans compiled')
      rw [reaches.eq_of_ended ended]
  · rintro rfl
    exact .ended session compiled ((Task.reaches_ended_iff ended).2 rfl)

/-- How an execution goes that may be suspended any number of times, each time for any while. -/
structure Awaits (e : Engine) (o : Outside) (source : String) (s : Session) (p : Proto) : Prop where
  /-- However long the suspensions last, it does not go on for ever. -/
  finite : Acc (fun t' t => Task.Step o t t') (.running (s.evaluator p))
  /-- Wherever it has come, it goes on to the end of its machine. -/
  ends : ∀ t, Task.Reaches o (.running (s.evaluator p)) t →
    Task.Reaches o t (.ended ((s.evaluator p).run o.host Session.patience))
  /-- It responds only then, and as if it had never been suspended. -/
  responds : ∀ r, e.Responds o source r ↔ r = e.execute o source
  /-- That end is the final outcome of its chunk. -/
  concludes : s.Concludes o.host p (s.outcome o.host p)
  /-- The result is that of the outcome, and of all lines that are printed. -/
  result : e.ExecutionLaw o source
  /-- An error is told as it is if nothing was suspended before. -/
  failure : e.FailureLaw o source
  /-- It is suspended wherever its machine is, for as long as it is kept waiting. -/
  suspended : ∀ q n m, Task.Reaches o (.running (s.evaluator p)) (.suspended q n m) ↔
    ∃ k, ((Machine.step o.host)^[k] (s.evaluator p)).Suspends o q m
  /-- What was printed before a suspension is the beginning of what is printed. -/
  printed : ∀ q n m, Task.Reaches o (.running (s.evaluator p)) (.suspended q n m) →
    m.heap.printed.lines <+: s.linesOf o.host p
  /-- After a suspension comes what it is settled with. -/
  resumed : ∀ q n m t, Task.Reaches o (.running (s.evaluator p)) (.suspended q n m) →
    Task.Reaches o (.suspended q n m) t →
    (∃ k, k ≤ n ∧ t = .suspended q k m) ∨ Task.Reaches o (.running (q.resumed o m)) t
  settles : o.Settles
  /-- A document that is there at once is given as one that was waited for. -/
  read : ∀ (m m' : Machine) (f : Reader) (args : Args) (query : String), m.Invokes (.host f.function) args m' →
    Library.textOf (args.get 1) = .ok query → o.host.hasToWait m'.heap.calls (.document query) = false →
    m.step o.host = (Suspension.reading f query).resumed o
      { m' with heap := m'.heap.note (o.vault m'.heap.calls).notices }

/-- **Suspended executions.** After any requests, an execution that comes to its end goes through its suspensions
as told: it responds only at its end, with the result of all of it. -/
theorem serve_execute_awaits (config : EngineConfig) (requests : List Request) (o : Outside) (source : String)
    {s : Session} {p : Proto} (session : ((new config).serve requests).session? = some s)
    (compiled : Session.compile s.heap.dumped ((new config).serve requests).config.sourceName source = .ok p)
    (ended : ((s.evaluator p).run o.host Session.patience).hasEnded = true) :
    ((new config).serve requests).Awaits o source s p := by
  have equipped : ((new config).serve requests).IsEquipped := (isEquipped_new config).serve requests
  have ended' := ended
  rw [Machine.run_eq_iterate] at ended'
  constructor
  · exact Task.acc_running ended'
  · intro t reaches
    rw [Machine.run_eq_iterate]
    exact reaches.ends ended'
  · exact responds_iff session compiled ended
  · exact Session.concludes_outcome o.host (equipped s session) p ended
  · exact execute_lawful _ o source
  · exact equipped.failureLaw o source
  · exact fun q n m => Task.reaches_suspended_iff
  · exact fun q n m => Session.lines_of_suspended ended
  · exact fun q n m t _ => Task.Reaches.of_suspended
  · exact o.settles
  · intro m m' f args query invokes asked ready
    exact Outside.step_of_read invokes asked fun waits => absurd (ready.symm.trans waits) Bool.false_ne_true

/-! ## A script that is suspended twice

It waits for the content of a document, and then yields a value. -/

/-- A vault with one document, which has to be waited for. -/
def slowVault : Vault := ⟨"", [⟨"a.md"⟩], none, fun _ => .ok "x", true, []⟩

/-- What is around the engine: that vault, and a process where nothing comes back. -/
def slowOutside : Outside := .around slowVault .still

/-- The source of the script, and its code. -/
def slowSource : String := "getNoteContent('a'), coroutine.yield(7)"

def readSlow : Code := .call (Machine.globalCode 0 "getNoteContent" 1) [.const (.text "a")] 1

def fetchCoroutine : Code := Machine.globalCode 0 "coroutine" 1

def fetchYield : Code := .index fetchCoroutine (.const (.text "yield")) 1

def yieldSlow : Code := .call fetchYield [.const (.int 7)] 1

def slowSteps : List Step := [.ret [readSlow, yieldSlow] 1]

def slowChunk : Proto := chunkOf "console".toUTF8 0 slowSteps

theorem compile_slow : Session.compile #[] EngineConfig.standard.sourceName slowSource = .ok slowChunk :=
  Session.compile_of_same (by decide +kernel)

/-- The machine that runs the script in a new session, with what it does next and the frames of the script. -/
def slowMachine (focus : Focus) (frames : List Frame) : Machine :=
  { (Session.fresh none).begun 2 1 "console".toUTF8 0 slowSteps with
    focus, stack := frames ++ Runner.guarded 2 1 4 }

/-- The machine when it asks for the content, and as it waits for it. -/
def slowReading : Machine :=
  slowMachine (.values [.text "a"])
    [.call (.builtin (.host .noteContent)) (.code (Machine.globalCode 0 "getNoteContent" 1)) 1 .one,
      .more [] [yieldSlow], .return]

def slowWaiting : Machine :=
  (slowMachine .done [.more [] [yieldSlow], .return]).waiting 1
    (.code (Machine.globalCode 0 "getNoteContent" 1)) .one

/-- The machine when it yields, and as it waits to be resumed. -/
def slowYielding : Machine :=
  slowMachine (.values [.int 7])
    [.call (.builtin (.coroutine .yield)) (.code fetchYield) 1 .all, .more [.text "x"] [], .return]

def slowYielded : Machine :=
  (slowMachine .done [.more [.text "x"] [], .return]).waiting 1 (.code fetchYield) .all

theorem step_slowReading (host : Host) :
    (Machine.step host)^[13] ((Session.fresh none).evaluator slowChunk) = slowReading := by
  have begins : (Machine.step host)^[7] ((Session.fresh none).evaluator slowChunk) =
      slowMachine (.exec slowSteps) [] :=
    Session.step_evaluator host rfl (Runner.isHelper_equipped (Session.startChunk none)) rfl _ (by decide) _
  have comes : (Machine.step host)^[2] (slowMachine (.exec slowSteps) []) =
      slowMachine (.eval readSlow) [.more [] [yieldSlow], .return] := rfl
  have found : (slowMachine .done []).heap.rawGet 0 (.text "getNoteContent") = .builtin (.host .noteContent) :=
    (Session.offersHost_fresh none).globals ("getNoteContent", .noteContent) (by decide)
  rw [Function.iterate_add_apply _ 6 7, begins, Function.iterate_add_apply _ 4 2, comes]
  exact Machine.step_callGlobal host (m := slowMachine .done [.more [] [yieldSlow], .return])
    (q := .const (.text "a")) 1 rfl found rfl rfl

theorem suspends_slowReading :
    slowReading.Suspends slowOutside (.reading .content "a") slowWaiting := by
  have calls : slowReading.Calls (.builtin (.host .noteContent)) [.text "a"] slowWaiting :=
    .code (slowMachine .done [.more [] [yieldSlow], .return]) _ _ _ _ _
  have waits : slowOutside.host.hasToWait slowWaiting.heap.calls (.document "a") = true := by decide +kernel
  exact .read (f := .content) calls.invokes (Library.textOf_text "a") waits rfl rfl

/-- After the content, the script fetches the function that yields. -/
theorem step_slowYielding (host : Host) :
    (Machine.step host)^[9] { slowWaiting with focus := .give [.text "x"] } = slowYielding := by
  obtain ⟨globals, -, -, record, -, -, -, -, libraries⟩ := Library.exists_globals none
  obtain ⟨r, listed, table⟩ := libraries ("coroutine", Library.named .coroutine Library.coroutineFunctions)
    List.mem_cons_self
  have found : (slowMachine .done []).heap.rawGet 0 (.text "coroutine") = .table r :=
    Session.rawGet_fresh none record listed
  have yield : (slowMachine .done []).heap.rawGet r (.text "yield") = .builtin (.coroutine .yield) := by
    show ((Session.fresh none).heap.table r).get _ = _
    rw [Session.table_fresh, table]
    exact (Table.isRecord_tableOf (by decide) (by decide)).get_text
      (by simp [Library.named, Library.coroutineFunctions])
  let frames : List Frame := [.arguments fetchYield [.const (.int 7)] 1 .all, .more [.text "x"] [], .return]
  have comes : (Machine.step host)^[4] { slowWaiting with focus := .give [.text "x"] } =
      slowMachine (.eval fetchYield) frames := rfl
  have fetched : (Machine.step host)^[3] (slowMachine (.eval fetchYield) frames) =
      slowMachine (.value (.builtin (.coroutine .yield))) frames :=
    Machine.step_fetchField host (m := slowMachine .done frames) rfl found yield rfl
  -- Four steps to the function, three to fetch it, and two to the call.
  rw [Function.iterate_add_apply _ 5 4, comes, Function.iterate_add_apply _ 2 3, fetched]
  rfl

theorem suspends_slowYielding : slowYielding.Suspends slowOutside (.yielded [.int 7]) slowYielded := by
  have calls : slowYielding.Calls (.builtin (.coroutine .yield)) [.int 7] slowYielded :=
    .code (slowMachine .done [.more [.text "x"] [], .return]) _ _ _ _ _
  exact .yield calls.invokes rfl rfl

theorem content_slow : slowVault.content "a" = .ok "x" := by
  have held : (slowVault.document "a").toOption.bind Descriptor.content? = some "x" := by decide +kernel
  rw [Vault.content_eq_ok]
  cases found : slowVault.document "a" with
  | ok d =>
    rw [found] at held
    exact ⟨d, rfl, held⟩
  | error e =>
    rw [found] at held
    cases held

/-- The script reads the content, and then yields. -/
theorem iterate_slowYielding :
    (Machine.step slowOutside.host)^[9 + (1 + 13)] ((Session.fresh none).evaluator slowChunk) = slowYielding := by
  have reads := (Outside.step_of_suspends suspends_slowReading).trans
    (slowOutside.settles.content "a" slowWaiting "x" content_slow)
  rw [Function.iterate_add_apply _ 9, Function.iterate_add_apply _ 1, step_slowReading, Function.iterate_one, reads,
    step_slowYielding]

/-- It ends with what it has read, and with no value that it has yielded. -/
theorem exists_slowEnd : ∃ act stack,
    ((Session.fresh none).evaluator slowChunk).run slowOutside.host Session.patience =
      { slowMachine (.finished [.text "x"]) [] with act, stack, depth := 0, room := 5 } := by
  have yields := (Outside.step_of_suspends suspends_slowYielding).trans (slowOutside.settles.yielded _ slowYielded)
  have returns : (Machine.step slowOutside.host)^[4] { slowYielded with focus := .give [] } =
      slowMachine (.give [.text "x"]) [] := rfl
  have given : (Machine.step slowOutside.host)^[4 + (1 + (9 + (1 + 13)))]
      ((Session.fresh none).evaluator slowChunk) = slowMachine (.give [.text "x"]) [] := by
    rw [Function.iterate_add_apply _ 4, Function.iterate_add_apply _ 1, iterate_slowYielding, Function.iterate_one,
      yields, returns]
  have grows : (Session.fresh none).cleared.Grows (slowMachine .done []).heap :=
    (Session.fresh none).cleared.grows_newChunk slowChunk _
  obtain ⟨act, stack, finished⟩ := Session.finished_of_given slowOutside.host
    ((Runner.isHelper_equipped (Session.startChunk none)).of_closures grows.closures) rfl given
  have long : 10 + (3 + (1 + (4 + (1 + (9 + (1 + 13)))))) ≤ Session.patience := by decide
  rw [Machine.run_eq_of_ended long (by rw [finished]; rfl), finished]
  exact ⟨act, stack, rfl⟩

theorem serve_start (c : EngineConfig) : (new c).serve [.start] = (start (new c)).engine := rfl

theorem serve_slow : (new .standard).serve [.start] = ⟨.standard, some (Session.fresh none)⟩ := by
  rw [serve_start, start_unlimited rfl]

/-- The script is suspended twice, for as long as one likes, and the result is what it has read. -/
theorem serve_execute_awaits_slow :
    ∃ s p, ((new .standard).serve [.start]).session? = some s ∧
      Session.compile s.heap.dumped ((new .standard).serve [.start]).config.sourceName slowSource = .ok p ∧
      ((s.evaluator p).run slowOutside.host Session.patience).hasEnded = true ∧
      ((new .standard).serve [.start]).Awaits slowOutside slowSource s p ∧
      (∀ n, ∃ m, Task.Reaches slowOutside (.running (s.evaluator p)) (.suspended (.reading .content "a") n m)) ∧
      (∀ n, ∃ m, Task.Reaches slowOutside (.running (s.evaluator p)) (.suspended (.yielded [.int 7]) n m)) ∧
      (((new .standard).serve [.start]).execute slowOutside slowSource).result =
        some (.ok (.value (.string "x"))) := by
  have session : ((new .standard).serve [.start]).session? = some (Session.fresh none) := by rw [serve_slow]
  have compiled : Session.compile (Session.fresh none).heap.dumped
      ((new .standard).serve [.start]).config.sourceName slowSource = .ok slowChunk := by
    rw [serve_slow]
    exact compile_slow
  obtain ⟨act, stack, run⟩ := exists_slowEnd
  have ended : (((Session.fresh none).evaluator slowChunk).run slowOutside.host Session.patience).hasEnded = true := by
    rw [run]
    rfl
  have awaits := serve_execute_awaits .standard [.start] slowOutside slowSource session compiled ended
  refine ⟨_, _, session, compiled, ended, awaits, fun n => ⟨slowWaiting, ?_⟩, fun n => ⟨slowYielded, ?_⟩, ?_⟩
  · exact (awaits.suspended _ _ _).2 ⟨13, by rw [step_slowReading]; exact suspends_slowReading⟩
  · exact (awaits.suspended _ _ _).2 ⟨9 + (1 + 13), by rw [iterate_slowYielding]; exact suspends_slowYielding⟩
  · have returned : (Session.fresh none).outcome slowOutside.host slowChunk = .returned [.text "x"] := by
      rw [Session.outcome, run]
      rfl
    have silent : (Session.fresh none).linesOf slowOutside.host slowChunk = [] := by
      rw [← Session.lines_afterwards, Session.afterwards, run]
      rfl
    -- The result is that of the whole run, with neither suspension in it.
    have law := awaits.result
    rw [serve_slow] at law compiled ⊢
    simp only [ExecutionLaw, compiled, returned, silent] at law
    rw [law.2 (by decide), Heap.exportValue, View.exportValue, Value.text, View.exportWithin,
      show Text.Utf8.lossy "x".toUTF8 = "x" by decide +kernel]

end Engine

end VaultConsole
