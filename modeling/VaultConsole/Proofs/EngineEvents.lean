import VaultConsole.Proofs.EngineLifecycle

/-!
# What an engine announces

The events of a run tell its life: sessions are made and released in turn, and each failure to make one is told
once. `Announces` says what one operation emits, `announces` that every operation of every engine keeps to it,
and `run_new_balanced` what follows for runs: between any two steps of a new engine its news are `Balanced`.
A reset takes two steps, so that the moment between them counts as well (`steps`, `run_steps`).
-/

namespace VaultConsole

namespace LogEvent

/-- Whether an event is news of the console itself. -/
def isNews (e : LogEvent) : Bool := e.level == .info && e.target == consoleTarget

/-- Whether an event tells an error of the console itself. -/
def isFault (e : LogEvent) : Bool := e.level == .error && e.target == consoleTarget

/-- What a session remarks is no news of the console, and no error of it. -/
theorem ofRemark_quiet (r : Lua.Remark) : (ofRemark r).isNews = false ∧ (ofRemark r).isFault = false := by
  cases r with
  | script text => exact ⟨rfl, rfl⟩
  | host text => exact ⟨rfl, rfl⟩

/-! ## Turns -/

/-- Events that are by turns the one and the other, if there are any. -/
def Alternates (first second : LogEvent) : List LogEvent → Prop
  | [] => True
  | e :: es => e = first ∧ Alternates second first es

/-- News of an engine that is ready or not: sessions are made and released in turn, and one more was made than
released just if there is a session. -/
structure Balanced (ready : Bool) (news : List LogEvent) : Prop where
  alternates : Alternates .initialized .released news
  balance : news.count .initialized = news.count .released + ready.toNat

/-- Events that lead from being ready or not to being ready or not: a session is made where there is none, and
released where there is one. -/
def Leads : Bool → List LogEvent → Bool → Prop
  | ready, [], after => ready = after
  | false, e :: es, after => e = .initialized ∧ Leads true es after
  | true, e :: es, after => e = .released ∧ Leads false es after

theorem Leads.append {ready between after : Bool} {es later : List LogEvent} (first : Leads ready es between)
    (second : Leads between later after) : Leads ready (es ++ later) after := by
  induction es generalizing ready with
  | nil =>
    obtain rfl : ready = between := first
    exact second
  | cons e es ih =>
    cases ready with
    | false => exact ⟨first.1, ih first.2⟩
    | true => exact ⟨first.1, ih first.2⟩

/-- Events that lead to being ready, or not, from having no session are balanced; and those that lead there from
having one are, once the making of that session is put before them. -/
theorem Leads.balanced {after : Bool} {es : List LogEvent} :
    (Leads false es after → Balanced after es) ∧ (Leads true es after → Balanced after (.initialized :: es)) := by
  -- Both parts are proved at once: each step hands over to the other part.
  have differ : (LogEvent.released == LogEvent.initialized) = false ∧
      (LogEvent.initialized == LogEvent.released) = false := by
    decide
  induction es with
  | nil =>
    constructor
    · rintro rfl
      exact ⟨trivial, rfl⟩
    · rintro rfl
      refine ⟨⟨rfl, trivial⟩, ?_⟩
      simp [List.count_cons, differ]
  | cons e es ih =>
    constructor
    · rintro ⟨rfl, later⟩
      exact ih.2 later
    · rintro ⟨rfl, later⟩
      have even := ih.1 later
      refine ⟨⟨rfl, rfl, even.alternates⟩, ?_⟩
      have count := even.balance
      simp only [List.count_cons, differ, beq_self_eq_true, if_true]
      simp
      omega

end LogEvent

namespace Engine

open LogEvent

/-! ## The events of operations -/

/-- The events that an operation emits. -/
def events (e : Engine) : Operation → List LogEvent
  | .start make => (e.startBy make).events
  | .reset make => (e.resetBy make).events
  | .cleanup => e.cleanup.events
  | .execute run source => (e.executeBy run source).events
  | .banner read => (e.bannerBy read).events
  | .setConfig _ => []

/-- The events that operations emit one after the other. -/
def eventsOf (e : Engine) : List Operation → List LogEvent
  | [] => []
  | op :: ops => e.events op ++ (e.perform op).1.eventsOf ops

/-- Why an operation fails to make a session, if it sets out to make one and fails. -/
def failure? (e : Engine) (op : Operation) : Option ScriptError :=
  (op.makes? e.isReady).bind fun make =>
    match make e.config.memoryLimit? with
    | .ok _ => none
    | .error cause => some cause

/-- Why operations one after the other fail to make a session: the cause for each that does. -/
def failures (e : Engine) : List Operation → List ScriptError
  | [] => []
  | op :: ops => (e.failure? op).toList ++ (e.perform op).1.failures ops

/-- The steps of an operation: a reset releases the session, and then makes another one. -/
def Operation.steps : Operation → List Operation
  | .reset make => [.cleanup, .start make]
  | op => [op]

/-- What an operation announces on an engine. -/
structure Announces (e : Engine) (op : Operation) : Prop where
  /-- Its news lead from the session before, if there was one, to the session after, if there is one. -/
  news : Leads e.isReady ((e.events op).filter (·.isNews)) (e.perform op).1.isReady
  /-- A failure to make a session is told once, and no other error is. -/
  faults : (e.events op).filter (·.isFault) = ((e.failure? op).map .notInitialized).toList

/-- What a step announces on an engine. -/
structure AnnouncesStep (e : Engine) (op : Operation) : Prop where
  /-- Where a session cannot be made there is none, before and after, and nothing else is told. -/
  failed : ∀ cause, e.failure? op = some cause →
    e.isReady = false ∧ (e.perform op).1.isReady = false ∧ e.events op = [.notInitialized cause]
  /-- A session that is there already is not told to be made. -/
  kept : (∃ make, op = .start make) → e.isReady = true → e.events op = []
  /-- No session that is not there is told to be released. -/
  absent : op = .cleanup → e.isReady = false → e.events op = []

/-- All that making a session announces. -/
theorem startBy_events (e : Engine) (make : Option Nat → Except ScriptError Lua.Session) :
    (e.isReady = true ∧ e.failure? (.start make) = none ∧ e.events (.start make) = [] ∧
      (e.perform (.start make)).1.isReady = true) ∨
    (e.isReady = false ∧ e.failure? (.start make) = none ∧ e.events (.start make) = [.initialized] ∧
      (e.perform (.start make)).1.isReady = true) ∨
    ∃ cause, e.isReady = false ∧ e.failure? (.start make) = some cause ∧
      e.events (.start make) = [.notInitialized cause] ∧ (e.perform (.start make)).1.isReady = false := by
  obtain ⟨config, session?⟩ := e
  cases session? with
  | some s => exact .inl ⟨rfl, rfl, rfl, rfl⟩
  | none =>
    cases made : make config.memoryLimit? with
    | ok s =>
      refine .inr (.inl ⟨rfl, ?_, ?_, ?_⟩)
      · simp [failure?, Operation.makes?, isReady, made]
      · simp only [events, startBy_fresh made]
      · simp only [perform, startBy_fresh made]
        rfl
    | error cause =>
      refine .inr (.inr ⟨cause, rfl, ?_, ?_, ?_⟩)
      · simp [failure?, Operation.makes?, isReady, made]
      · simp only [events, startBy_failed made]
      · simp only [perform, startBy_failed made]
        rfl

/-- What cleanup announces: the session that it releases. -/
theorem cleanup_events (e : Engine) : e.events .cleanup = if e.isReady then [.released] else [] := by
  obtain ⟨config, session?⟩ := e
  cases session? with
  | none => rfl
  | some s => rfl

theorem announces_start (e : Engine) (make : Option Nat → Except ScriptError Lua.Session) :
    e.Announces (.start make) := by
  obtain ⟨ready, fine, silent, after⟩ | ⟨ready, fine, told, after⟩ | ⟨cause, ready, fails, told, after⟩ :=
    startBy_events e make
  · constructor
    · rw [ready, silent, after]
      rfl
    · rw [silent, fine]
      rfl
  · constructor
    · rw [ready, told, after]
      exact ⟨rfl, rfl⟩
    · rw [told, fine]
      rfl
  · constructor
    · rw [ready, told, after]
      rfl
    · rw [told, fails]
      rfl

theorem announces_cleanup (e : Engine) : e.Announces .cleanup := by
  have after : (e.perform .cleanup).1.isReady = false := by
    simp only [perform, cleanup_engine]
    rfl
  constructor
  · rw [cleanup_events, after]
    cases e.isReady with
    | false => rfl
    | true => exact ⟨rfl, rfl⟩
  · rw [cleanup_events]
    cases e.isReady with
    | false => rfl
    | true => rfl

/-- A step keeps to what steps announce: all but a reset do. -/
theorem announcesStep (e : Engine) {op : Operation} (single : op.steps = [op]) : e.AnnouncesStep op := by
  cases op with
  | start make =>
    refine ⟨?_, fun _ ready => ?_, ?_⟩
    · intro cause failed
      obtain ⟨-, fine, -⟩ | ⟨-, fine, -⟩ | ⟨cause', unready, fails, told, after⟩ := startBy_events e make
      · rw [fine] at failed
        cases failed
      · rw [fine] at failed
        cases failed
      · rw [fails] at failed
        obtain rfl := Option.some.inj failed
        exact ⟨unready, after, told⟩
    · simp only [events, startBy_ready ready]
    · rintro ⟨⟩
  | cleanup =>
    refine ⟨?_, ?_, fun _ unready => ?_⟩
    · rintro cause ⟨⟩
    · rintro ⟨_, ⟨⟩⟩
    · rw [cleanup_events, unready]
      rfl
  | reset make => cases single
  | _ =>
    -- An evaluation and a change of the configuration make no session, and release none.
    refine ⟨?_, ?_, ?_⟩
    · rintro cause ⟨⟩
    · rintro ⟨_, ⟨⟩⟩
    · rintro ⟨⟩

/-! ## Runs -/

@[simp]
theorem eventsOf_append (e : Engine) (ops later : List Operation) :
    e.eventsOf (ops ++ later) = e.eventsOf ops ++ (e.performAll ops).eventsOf later := by
  induction ops generalizing e with
  | nil => rfl
  | cons op ops ih =>
    rw [List.cons_append, eventsOf, eventsOf, ih, List.append_assoc]
    rfl

/-- A reset is its two steps. -/
theorem reset_steps (e : Engine) (make : Option Nat → Except ScriptError Lua.Session) :
    (e.perform (.reset make)).1 = e.performAll [.cleanup, .start make] ∧
      e.events (.reset make) = e.eventsOf [.cleanup, .start make] ∧
      e.failure? (.reset make) = (e.perform .cleanup).1.failure? (.start make) := by
  have released : (e.perform .cleanup).1 = ⟨e.config, none⟩ := cleanup_engine e
  refine ⟨?_, ?_, ?_⟩
  · rw [perform_reset, ← released]
    rfl
  · simp [eventsOf, events, resetBy, perform]
  · rw [released]
    rfl

/-- An evaluation announces nothing, and the session stays. -/
theorem announces_quiet {e : Engine} {op : Operation} (same : (e.perform op).1.isReady = e.isReady)
    (fine : e.failure? op = none) (quiet : ∀ ev ∈ e.events op, ev.isNews = false ∧ ev.isFault = false) :
    e.Announces op := by
  have noNews : (e.events op).filter (·.isNews) = [] := by
    rw [List.filter_eq_nil_iff]
    intro ev emitted
    simp [(quiet ev emitted).1]
  have noFaults : (e.events op).filter (·.isFault) = [] := by
    rw [List.filter_eq_nil_iff]
    intro ev emitted
    simp [(quiet ev emitted).2]
  constructor
  · rw [noNews, same]
    rfl
  · rw [noFaults, fine]
    rfl

/-- What an evaluation emits is remarks, and events for its own record. -/
theorem executeBy_quiet (e : Engine)
    (run : String → Lua.Session → Lua.Session × Option (Except ScriptError Result)) (source : String) :
    ∀ ev ∈ (e.executeBy run source).events, ev.isNews = false ∧ ev.isFault = false := by
  obtain ⟨config, session?⟩ := e
  cases session? with
  | none =>
    intro ev emitted
    cases emitted
  | some s =>
    have remarks : ∀ s' : Lua.Session, ∀ ev ∈ s'.heap.logged.reverse.map LogEvent.ofRemark,
        ev.isNews = false ∧ ev.isFault = false := by
      intro s' ev emitted
      obtain ⟨r, -, rfl⟩ := List.mem_map.1 emitted
      exact LogEvent.ofRemark_quiet r
    intro ev
    simp only [executeBy]
    obtain ⟨s', result?⟩ := run config.sourceName s
    -- One event begins the record, the remarks of the script follow, and a failure is told at the end.
    have begins : ev ∈ .executing source.utf8ByteSize :: s'.heap.logged.reverse.map LogEvent.ofRemark →
        ev.isNews = false ∧ ev.isFault = false := by
      intro emitted
      obtain rfl | logged := List.mem_cons.1 emitted
      · exact ⟨rfl, rfl⟩
      · exact remarks s' ev logged
    cases result? with
    | none => exact begins
    | some result =>
      cases result with
      | ok r => exact begins
      | error cause =>
        intro emitted
        obtain emitted | failed := List.mem_append.1 emitted
        · exact begins emitted
        · obtain rfl := List.mem_singleton.1 failed
          exact ⟨rfl, rfl⟩

theorem bannerBy_quiet (e : Engine) (read : Lua.Session → Lua.Session × Option (Except ScriptError String)) :
    ∀ ev ∈ (e.bannerBy read).events, ev.isNews = false ∧ ev.isFault = false := by
  obtain ⟨config, session?⟩ := e
  intro ev emitted
  cases session? with
  | none => cases emitted
  | some s =>
    obtain ⟨r, -, rfl⟩ := List.mem_map.1 emitted
    exact LogEvent.ofRemark_quiet r

/-- **What operations announce**, whatever the engine and the operation. -/
theorem announces (e : Engine) (op : Operation) : e.Announces op := by
  cases op with
  | start make => exact announces_start e make
  | cleanup => exact announces_cleanup e
  | reset make =>
    obtain ⟨after, told, fails⟩ := reset_steps e make
    have first := announces_cleanup e
    have second := announces_start (e.perform .cleanup).1 make
    -- The session that is released and the one that is made are told one after the other.
    have split : e.events (.reset make) = e.events .cleanup ++ (e.perform .cleanup).1.events (.start make) := by
      rw [told]
      simp [eventsOf]
    constructor
    · rw [after, split, List.filter_append]
      exact first.news.append second.news
    · rw [split, List.filter_append, first.faults, second.faults, fails]
      rfl
  | execute run source =>
    refine announces_quiet ?_ rfl (executeBy_quiet e run source)
    exact (perform_lawful e (.execute run source)).1
  | banner read =>
    refine announces_quiet ?_ rfl (bannerBy_quiet e read)
    exact (perform_lawful e (.banner read)).1
  | setConfig c =>
    refine announces_quiet rfl rfl ?_
    rintro ev ⟨⟩

/-- The news of a run lead from the session before it to the one after it. -/
theorem leads_run (e : Engine) (ops : List Operation) :
    Leads e.isReady ((e.eventsOf ops).filter (·.isNews)) (e.performAll ops).isReady := by
  induction ops generalizing e with
  | nil => rfl
  | cons op ops ih =>
    rw [eventsOf, List.filter_append]
    exact (announces e op).news.append (ih (e.perform op).1)

/-- The errors of a run are its failures to make a session, each told once. -/
theorem faults_run (e : Engine) (ops : List Operation) :
    (e.eventsOf ops).filter (·.isFault) = (e.failures ops).map .notInitialized := by
  induction ops generalizing e with
  | nil => rfl
  | cons op ops ih =>
    rw [eventsOf, failures, List.filter_append, (announces e op).faults, ih, List.map_append]
    cases e.failure? op with
    | none => rfl
    | some cause => rfl

/-- A run is the run of its steps. -/
theorem run_steps (e : Engine) (ops : List Operation) :
    e.performAll (ops.flatMap Operation.steps) = e.performAll ops ∧
      e.eventsOf (ops.flatMap Operation.steps) = e.eventsOf ops := by
  induction ops generalizing e with
  | nil => exact ⟨rfl, rfl⟩
  | cons op ops ih =>
    have step : e.performAll op.steps = (e.perform op).1 ∧ e.eventsOf op.steps = e.events op := by
      cases op with
      | reset make => exact ⟨(reset_steps e make).1.symm, (reset_steps e make).2.1.symm⟩
      | _ => exact ⟨rfl, List.append_nil _⟩
    have split : e.performAll (op.steps ++ ops.flatMap Operation.steps) =
        (e.performAll op.steps).performAll (ops.flatMap Operation.steps) := List.foldl_append
    obtain ⟨after, later⟩ := ih (e.perform op).1
    rw [List.flatMap_cons, split, eventsOf_append, step.1, step.2, after, later]
    exact ⟨rfl, rfl⟩

/-- Steps are taken one by one. -/
theorem steps_of_mem {ops : List Operation} {op : Operation} (taken : op ∈ ops.flatMap Operation.steps) :
    op.steps = [op] := by
  obtain ⟨whole, -, part⟩ := List.mem_flatMap.1 taken
  cases whole with
  | reset make =>
    obtain rfl | later := List.mem_cons.1 part
    · rfl
    · obtain rfl := List.mem_singleton.1 later
      rfl
  | _ =>
    obtain rfl := List.mem_singleton.1 part
    rfl

/-- **Sessions are announced in turn.** In every run of a new engine, however the creations and the evaluations
turn out, the news up to any moment are balanced with whether there is a session then; once the engine is given
up at the end, as many sessions were released as were made. The errors told are the failures to make a session,
one for each, in the steps that fail. -/
theorem run_new_balanced (config : EngineConfig) (ops : List Operation) :
    let steps := ops.flatMap Operation.steps
    ((new config).performAll steps = (new config).performAll ops ∧
      (new config).eventsOf steps = (new config).eventsOf ops) ∧
    (∀ n, Balanced ((new config).performAll (steps.take n)).isReady
      (((new config).eventsOf (steps.take n)).filter (·.isNews))) ∧
    Balanced false (((new config).eventsOf (ops ++ [.cleanup])).filter (·.isNews)) ∧
    ((new config).eventsOf ops).filter (·.isFault) = ((new config).failures ops).map .notInitialized ∧
    ∀ before op after, steps = before ++ op :: after →
      ((new config).performAll before).Announces op ∧ ((new config).performAll before).AnnouncesStep op := by
  intro steps
  have balanced : ∀ ops, Balanced ((new config).performAll ops).isReady
      (((new config).eventsOf ops).filter (·.isNews)) :=
    fun ops => Leads.balanced.1 (leads_run (new config) ops)
  refine ⟨run_steps _ ops, fun n => balanced _, ?_, faults_run _ ops, ?_⟩
  · have given := balanced (ops ++ [.cleanup])
    simp only [performAll_append, perform, cleanup_engine] at given
    exact given
  · intro before op after split
    have taken : op ∈ steps := by
      rw [split]
      exact List.mem_append_right before List.mem_cons_self
    exact ⟨announces _ op, announcesStep _ (steps_of_mem taken)⟩

end Engine

end VaultConsole
