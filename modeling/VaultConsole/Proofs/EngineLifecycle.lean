import Mathlib.Data.List.Induction
import VaultConsole.Engine

/-!
# The life of an engine

An engine goes through operations in any order, and how each session is made and how each evaluation
comes out is left open: an `Operation` carries the function that makes the session or evaluates the
source. `Operation.Lawful` is the contract of one operation, `perform_lawful` says that every engine
keeps it, and `exists_creation` tells, for the session that an engine has after a run, which operation
made it and that only evaluations have changed it since. The two together are `run_new_lawful`.
-/

namespace VaultConsole

namespace Engine

/-- An operation of an engine, with the way in which a session is made or used by it. -/
inductive Operation where
  | start (make : Option Nat → Except ScriptError Lua.Session)
  | reset (make : Option Nat → Except ScriptError Lua.Session)
  | cleanup
  | execute (run : String → Lua.Session → Lua.Session × Option (Except ScriptError Result)) (source : String)
  | banner (read : Lua.Session → Lua.Session × Option (Except ScriptError String))
  | setConfig (config : EngineConfig)

/-- What an operation answers: nothing, or the result of an evaluation, or a banner. -/
inductive Answer where
  | none
  | result (r : Result)
  | text (s : String)

/-- The engine after an operation, and what the operation answers if it comes back. Only an evaluation may fail to
come back. -/
def perform (e : Engine) : Operation → Engine × Option (Except EngineError Answer)
  | .start make =>
    let r := e.startBy make
    (r.engine, some (r.result.map fun _ => .none))
  | .reset make =>
    let r := e.resetBy make
    (r.engine, some (r.result.map fun _ => .none))
  | .cleanup =>
    let r := e.cleanup
    (r.engine, some (r.result.map fun _ => .none))
  | .execute run source =>
    let r := e.executeBy run source
    (r.engine, r.result.map (·.map .result))
  | .banner read =>
    let r := e.bannerBy read
    (r.engine, r.result.map (·.map .text))
  | .setConfig config => (e.setConfig config, some (.ok .none))

/-- The engine after operations in order. -/
def performAll (e : Engine) (ops : List Operation) : Engine := ops.foldl (fun e op => (e.perform op).1) e

namespace Operation

/-- Whether an operation gives up the session that the engine has. -/
def releases : Operation → Bool
  | .reset _ => true
  | .cleanup => true
  | _ => false

/-- The session after an operation that keeps it. -/
def evolve : Operation → Lua.Session → String → Lua.Session
  | .execute run _, s, name => (run name s).1
  | .banner read, s, _ => (read s).1
  | _, s, _ => s

/-- The way in which an operation makes a session when the engine has one or has none. -/
def makes? : Operation → Bool → Option (Option Nat → Except ScriptError Lua.Session)
  | .start make, false => some make
  | .reset make, _ => some make
  | _, _ => none

/-- The contract of an operation on an engine. -/
def Lawful (op : Operation) (e : Engine) : Prop :=
  let after := (e.perform op).1
  let answer := (e.perform op).2
  match op with
  | .start make =>
    (e.isReady → answer = some (.ok .none) ∧ after = e) ∧
    (¬ e.isReady → (after.isReady ↔ answer = some (.ok .none)) ∧
      (∀ s, make e.config.memoryLimit? = .ok s → after.session? = some s) ∧
      (∀ cause, make e.config.memoryLimit? = .error cause →
        answer = some (.error (.initialization cause)) ∧ after.session? = none))
  | .reset make =>
    (after.isReady ↔ answer = some (.ok .none)) ∧
    (∀ s, make e.config.memoryLimit? = .ok s → after.session? = some s) ∧
    (∀ cause, make e.config.memoryLimit? = .error cause →
      answer = some (.error (.initialization cause)) ∧ after.session? = none)
  | .cleanup => answer = some (.ok .none) ∧ after.session? = none
  | .execute run _ =>
    after.isReady = e.isReady ∧ (answer = some (.error .notInitialized) ↔ ¬ e.isReady) ∧
    (∀ s, e.session? = some s → after.session? = some (run e.config.sourceName s).1 ∧
      answer = (run e.config.sourceName s).2.map fun r => (r.mapError EngineError.ofScript).map .result)
  | .banner read =>
    after.isReady = e.isReady ∧ (answer = some (.error .notInitialized) ↔ ¬ e.isReady) ∧
    (∀ s, e.session? = some s → after.session? = some (read s).1 ∧
      answer = (read s).2.map fun r => (r.mapError EngineError.ofScript).map .text)
  | .setConfig config => answer = some (.ok .none) ∧ after = { e with config }

end Operation

/-! ## One operation -/

/-- On an engine with a session, initialization does nothing. -/
theorem startBy_ready {e : Engine} (h : e.isReady)
    (make : Option Nat → Except ScriptError Lua.Session) : e.startBy make = ⟨e, [], [], .ok ()⟩ := by
  obtain ⟨config, session?⟩ := e
  cases session? with
  | none => simp [isReady] at h
  | some s => rfl

/-- On an engine without a session, initialization gives the session that is made. -/
theorem startBy_fresh {config : EngineConfig}
    {make : Option Nat → Except ScriptError Lua.Session} {s : Lua.Session}
    (h : make config.memoryLimit? = .ok s) :
    startBy ⟨config, none⟩ make = ⟨⟨config, some s⟩, [.initialized], [], .ok ()⟩ := by
  simp only [startBy, h]

/-- Initialization that fails leaves the engine without a session. -/
theorem startBy_failed {config : EngineConfig}
    {make : Option Nat → Except ScriptError Lua.Session} {cause : ScriptError}
    (h : make config.memoryLimit? = .error cause) :
    startBy ⟨config, none⟩ make =
      ⟨⟨config, none⟩, [.notInitialized cause], [], .error (.initialization cause)⟩ := by
  simp only [startBy, h]

/-- Cleanup leaves the configuration only. -/
theorem cleanup_engine (e : Engine) : e.cleanup.engine = ⟨e.config, none⟩ := by
  obtain ⟨config, session?⟩ := e
  cases session? with
  | none => rfl
  | some s => rfl

theorem cleanup_result (e : Engine) : e.cleanup.result = .ok () := by
  obtain ⟨config, session?⟩ := e
  cases session? with
  | none => rfl
  | some s => rfl

/-- Reset is initialization of the engine without its session. -/
theorem resetBy_engine (e : Engine) (make : Option Nat → Except ScriptError Lua.Session) :
    (e.resetBy make).engine = (startBy ⟨e.config, none⟩ make).engine := by
  simp only [resetBy, cleanup_engine]

theorem resetBy_result (e : Engine) (make : Option Nat → Except ScriptError Lua.Session) :
    (e.resetBy make).result = (startBy ⟨e.config, none⟩ make).result := by
  simp only [resetBy, cleanup_engine]

/-- An execution on an engine with a session keeps what the evaluation leaves of the session. -/
theorem executeBy_ready (config : EngineConfig) (s : Lua.Session)
    (run : String → Lua.Session → Lua.Session × Option (Except ScriptError Result)) (source : String) :
    (executeBy ⟨config, some s⟩ run source).engine = ⟨config, some (run config.sourceName s).1⟩ ∧
      (executeBy ⟨config, some s⟩ run source).result =
        (run config.sourceName s).2.map (·.mapError EngineError.ofScript) := by
  simp only [executeBy]
  obtain ⟨s', result?⟩ := run config.sourceName s
  cases result? with
  | none => exact ⟨rfl, rfl⟩
  | some result =>
    cases result with
    | error cause => exact ⟨rfl, rfl⟩
    | ok r => exact ⟨rfl, rfl⟩

/-- No failure of an evaluation is told as the lack of a session. -/
theorem mapError_ofScript_ne {α β : Type} (r : Except ScriptError α) (f : α → β) :
    (r.mapError EngineError.ofScript).map f ≠ .error .notInitialized := by
  intro h
  cases r with
  | error cause => cases h
  | ok a => cases h

/-- Making a session is told apart from failing to make one by the answer. -/
theorem perform_start_fresh (config : EngineConfig)
    (make : Option Nat → Except ScriptError Lua.Session) :
    let r := perform ⟨config, none⟩ (.start make)
    (r.1.isReady ↔ r.2 = some (.ok .none)) ∧
    (∀ s, make config.memoryLimit? = .ok s → r.1.session? = some s) ∧
    (∀ cause, make config.memoryLimit? = .error cause →
      r.2 = some (.error (.initialization cause)) ∧ r.1.session? = none) := by
  intro r
  cases made : make config.memoryLimit? with
  | ok s =>
    have hr : r = (⟨config, some s⟩, some (.ok .none)) := by
      simp only [r, perform, startBy_fresh made]; rfl
    rw [hr]
    refine ⟨by simp [isReady], ?_, ?_⟩
    · intro s' h
      cases h
      rfl
    · intro cause h
      cases h
  | error cause =>
    have hr : r = (⟨config, none⟩, some (.error (.initialization cause))) := by
      simp only [r, perform, startBy_failed made]; rfl
    rw [hr]
    refine ⟨by simp [isReady], ?_, ?_⟩
    · intro s h
      cases h
    · intro cause' h
      cases h
      exact ⟨rfl, rfl⟩

/-- A reset answers as an initialization of the engine without its session does. -/
theorem perform_reset (e : Engine) (make : Option Nat → Except ScriptError Lua.Session) :
    e.perform (.reset make) = perform ⟨e.config, none⟩ (.start make) := by
  show ((e.resetBy make).engine, _) = _
  rw [resetBy_engine, resetBy_result]
  rfl

/-- Every engine keeps the contract of every operation. -/
theorem perform_lawful (e : Engine) (op : Operation) : op.Lawful e := by
  obtain ⟨config, session?⟩ := e
  -- Each operation with a session and without one, which is all that its contract depends on.
  cases op with
  | start make =>
    constructor
    · intro ready
      simp only [perform, startBy_ready ready]
      exact ⟨rfl, trivial⟩
    · intro unready
      cases session? with
      | some s => simp [isReady] at unready
      | none => exact perform_start_fresh config make
  | reset make =>
    simp only [Operation.Lawful, perform_reset]
    exact perform_start_fresh config make
  | cleanup =>
    simp only [Operation.Lawful, perform, cleanup_engine, cleanup_result]
    exact ⟨rfl, trivial⟩
  | execute run source =>
    cases session? with
    | none => exact ⟨rfl, by simp [perform, executeBy, isReady, Except.map], by simp⟩
    | some s =>
      obtain ⟨left, result⟩ := executeBy_ready config s run source
      simp only [Operation.Lawful, perform, left, result, Option.map_map]
      refine ⟨rfl, ?_, ?_⟩
      · simp [isReady, mapError_ofScript_ne]
      · intro s' h
        cases h
        exact ⟨rfl, rfl⟩
  | banner read =>
    cases session? with
    | none => exact ⟨rfl, by simp [perform, bannerBy, isReady, Except.map], by simp⟩
    | some s =>
      refine ⟨rfl, ?_, ?_⟩
      · simp [perform, bannerBy, isReady, mapError_ofScript_ne]
      · intro s' h
        cases h
        exact ⟨rfl, Option.map_map ..⟩
  | setConfig c => exact ⟨rfl, rfl⟩

/-! ## Runs -/

@[simp]
theorem performAll_append (e : Engine) (ops : List Operation) (op : Operation) :
    e.performAll (ops ++ [op]) = ((e.performAll ops).perform op).1 := by
  simp [performAll]

/-- The session that an engine has after operations, none of which releases it, is the one before them as
the evaluations among them changed it. -/
inductive Evolves : Engine → List Operation → Lua.Session → Lua.Session → Prop where
  | refl (e : Engine) (s : Lua.Session) : Evolves e [] s s
  | step {e : Engine} {ops : List Operation} {s s' : Lua.Session} (op : Operation)
      (kept : op.releases = false) (before : Evolves e ops s s') :
      Evolves e (ops ++ [op]) s (op.evolve s' (e.performAll ops).config.sourceName)

/-- An operation that leaves a session has made it, or has kept the one before. -/
theorem perform_session {e : Engine} {op : Operation} {s : Lua.Session}
    (h : (e.perform op).1.session? = some s) :
    (∃ make, op.makes? e.isReady = some make ∧ make e.config.memoryLimit? = .ok s) ∨
      (op.releases = false ∧
        ∃ s', e.session? = some s' ∧ s = op.evolve s' e.config.sourceName) := by
  obtain ⟨config, session?⟩ := e
  -- A session that a start leaves is the one it has made.
  have fresh : ∀ make, (perform ⟨config, none⟩ (.start make)).1.session? = some s →
      make config.memoryLimit? = .ok s := by
    intro make h
    obtain ⟨-, made, failed⟩ := perform_start_fresh config make
    cases outcome : make config.memoryLimit? with
    | ok s' =>
      rw [made s' outcome] at h
      cases h
      rfl
    | error cause =>
      rw [(failed cause outcome).2] at h
      cases h
  cases op with
  | start make =>
    cases session? with
    | some s' => exact .inr ⟨rfl, s', rfl, by cases h; rfl⟩
    | none => exact .inl ⟨make, rfl, fresh make h⟩
  | reset make =>
    rw [perform_reset] at h
    exact .inl ⟨make, rfl, fresh make h⟩
  | cleanup =>
    simp only [perform, cleanup_engine] at h
    cases h
  | execute run source =>
    cases session? with
    | none => cases h
    | some s' =>
      refine .inr ⟨rfl, s', rfl, ?_⟩
      simp only [perform, (executeBy_ready config s' run source).1] at h
      cases h
      rfl
  | banner read =>
    cases session? with
    | none => cases h
    | some s' => exact .inr ⟨rfl, s', rfl, by cases h; rfl⟩
  | setConfig c =>
    cases session? with
    | none => cases h
    | some s' => exact .inr ⟨rfl, s', rfl, by cases h; rfl⟩

/-- The session of an engine after a run is that of its last creation, as the evaluations since changed it:
no release stands between. -/
theorem exists_creation (config : EngineConfig) (ops : List Operation) {s : Lua.Session}
    (h : ((new config).performAll ops).session? = some s) :
    ∃ before op after make made, ops = before ++ op :: after ∧
      op.makes? ((new config).performAll before).isReady = some make ∧
      make ((new config).performAll before).config.memoryLimit? = .ok made ∧
      Evolves ((new config).performAll (before ++ [op])) after made s := by
  -- Induction from the end: the last operation has made the session, or has kept an earlier one.
  induction ops using List.reverseRecOn generalizing s with
  | nil => cases h
  | append_singleton ops op ih =>
    rw [performAll_append] at h
    obtain ⟨make, makes, made⟩ | ⟨kept, s', had, rfl⟩ := perform_session h
    · exact ⟨ops, op, [], make, s, rfl, makes, made, .refl _ _⟩
    · obtain ⟨before, op', after, make, made, rfl, makes, hmade, evolved⟩ := ih had
      refine ⟨before, op', after ++ [op], make, made, by simp, makes, hmade, ?_⟩
      have later : ((new config).performAll (before ++ [op'])).performAll after =
          (new config).performAll (before ++ op' :: after) := by
        simp [performAll]
      rw [← later]
      exact .step op kept evolved

/-- In every run of a new engine each operation keeps its contract, whatever the creations and the
evaluations turn out to do; and a session that the engine has is that of its last creation, which only
the evaluations since then have changed. -/
theorem run_new_lawful (config : EngineConfig) (ops : List Operation) :
    (∀ before op after, ops = before ++ op :: after → op.Lawful ((new config).performAll before)) ∧
    (∀ s, ((new config).performAll ops).session? = some s →
      ∃ before op after make made, ops = before ++ op :: after ∧
        op.makes? ((new config).performAll before).isReady = some make ∧
        make ((new config).performAll before).config.memoryLimit? = .ok made ∧
        Evolves ((new config).performAll (before ++ [op])) after made s) := by
  constructor
  · intro before op after _
    exact perform_lawful _ op
  · intro s h
    exact exists_creation config ops h

end Engine

end VaultConsole
