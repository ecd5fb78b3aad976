import VaultConsole.Proofs.Reset

/-!
# A configuration that is changed

A configuration has two fields, and each is looked at in a moment of its own: the limit on memory when a
session is made, the name of chunks whenever a chunk is compiled. So two worlds whose engines have the same
session and differ in the limit only reply alike as long as the session stays (`Alike.replies`), and of a new
configuration just the name of chunks shows before the next session (`replies_setConfig`). That it does show
is `replies_setConfig_name`.
-/

namespace VaultConsole

/-- Whether a move leaves the session of an engine and its configuration in their place. -/
def Move.keepsSession {σ : Type} : Move σ → Bool
  | .reset => false
  | .cleanup => false
  | .setConfig _ => false
  | _ => true

/-- Of a configuration, an execution looks at the name of chunks. -/
theorem Engine.executeBy_named {c c' : EngineConfig} (named : c.chunkName = c'.chunkName) (s : Lua.Session)
    (run : String → Lua.Session → Lua.Session × Option (Except ScriptError Result)) (source : String) :
    ∃ s' events calls result, executeBy ⟨c, some s⟩ run source = ⟨⟨c, some s'⟩, events, calls, result⟩ ∧
      executeBy ⟨c', some s⟩ run source = ⟨⟨c', some s'⟩, events, calls, result⟩ := by
  have same : c.sourceName = c'.sourceName := congrArg ("=" ++ ·) named
  simp only [executeBy, same]
  cases (run c'.sourceName s).2 with
  | none => exact ⟨_, _, _, _, rfl, rfl⟩
  | some result =>
    cases result with
    | ok r => exact ⟨_, _, _, _, rfl, rfl⟩
    | error cause => exact ⟨_, _, _, _, rfl, rfl⟩

/-- Reading the banner does not look at the configuration. -/
theorem Engine.bannerBy_config (c c' : EngineConfig) (s : Lua.Session)
    (read : Lua.Session → Lua.Session × Option (Except ScriptError String)) :
    ∃ s' events calls result, bannerBy ⟨c, some s⟩ read = ⟨⟨c, some s'⟩, events, calls, result⟩ ∧
      bannerBy ⟨c', some s⟩ read = ⟨⟨c', some s'⟩, events, calls, result⟩ :=
  ⟨_, _, _, _, rfl, rfl⟩

namespace World

variable {σ : Type} {a : Around σ} {w w' : World σ}

/-! ## Worlds that differ in the limit on memory only -/

/-- Worlds with the same around them and the same session, whose chunks have the same name. -/
structure Alike (w w' : World σ) : Prop where
  store : w.store = w'.store
  session : ∃ s, w.engine.session? = some s ∧ w'.engine.session? = some s
  name : w.engine.config.chunkName = w'.engine.config.chunkName

/-- Every move that leaves the session in its place is replied to alike, and leaves the worlds alike. -/
theorem Alike.move (alike : w.Alike w') {x : Move σ} (keeps : x.keepsSession = true) :
    (w.move a x).2 = (w'.move a x).2 ∧ (w.move a x).1.Alike (w'.move a x).1 := by
  obtain ⟨store, ⟨config, session?⟩⟩ := w
  obtain ⟨store', ⟨config', session?'⟩⟩ := w'
  obtain ⟨stores, ⟨s, here, there⟩, named⟩ := alike
  obtain rfl : store = store' := stores
  obtain rfl : session? = some s := here
  obtain rfl : session?' = some s := there
  -- Of the moves that are left, only an execution looks at the configuration.
  cases x with
  | reset => cases keeps
  | cleanup => cases keeps
  | setConfig c => cases keeps
  | start => exact ⟨rfl, rfl, ⟨s, rfl, rfl⟩, named⟩
  | banner =>
    obtain ⟨s', events, calls, result, first, second⟩ := Engine.bannerBy_config config config' s
      fun s => s.banner (a.view store).host
    simp only [World.move, Engine.banner, first, second]
    exact ⟨rfl, rfl, ⟨s', rfl, rfl⟩, named⟩
  | touch f => exact ⟨rfl, rfl, ⟨s, rfl, rfl⟩, named⟩
  | execute source =>
    obtain ⟨s', events, calls, result, first, second⟩ := Engine.executeBy_named named s
      (fun name s => s.execute (a.view store).host name source) source
    simp only [World.move, Engine.execute, first, second]
    exact ⟨rfl, rfl, ⟨s', rfl, rfl⟩, named⟩

/-- Moves that leave the session in its place are replied to alike, one after the other. -/
theorem Alike.run (alike : w.Alike w') {moves : List (Move σ)}
    (keeps : ∀ x ∈ moves, x.keepsSession = true) :
    w.replies a moves = w'.replies a moves ∧ (w.run a moves).Alike (w'.run a moves) := by
  induction moves generalizing w w' with
  | nil => exact ⟨rfl, alike⟩
  | cons x moves ih =>
    obtain ⟨reply, next⟩ := alike.move (keeps x List.mem_cons_self)
    obtain ⟨replies, last⟩ := ih next fun y later => keeps y (List.mem_cons_of_mem x later)
    refine ⟨?_, last⟩
    rw [World.replies, World.replies, reply, replies]

/-! ## Changing the configuration of an engine with a session -/

/-- Moves that leave the session in its place leave the configuration as well. -/
theorem run_config_keeps (w : World σ) {moves : List (Move σ)} (keeps : ∀ x ∈ moves, x.keepsSession = true) :
    (w.run a moves).engine.config = w.engine.config := by
  rw [run_config]
  induction moves with
  | nil => rfl
  | cons x moves ih =>
    have first : x.onConfig w.engine.config = w.engine.config := by
      cases x with
      | setConfig c => exact absurd (keeps _ List.mem_cons_self) Bool.false_ne_true
      | _ => rfl
    rw [List.foldl_cons, first]
    exact ih fun y later => keeps y (List.mem_cons_of_mem x later)

/-- **A new configuration waits for the next session, but for the name of chunks.** Set a configuration on an
engine with a session. What follows, as long as the session stays, is replied to as if nothing but the name of
chunks had been set, and just as without the change if the name is the same; and the session stays the same.
The limit on memory counts when a session is made: a reset, or an initialization after a cleanup, goes then as
the initialization of a new engine with the new configuration. -/
theorem replies_setConfig (w : World σ) (ready : w.engine.isReady = true) (config : EngineConfig)
    (moves : List (Move σ)) (keeps : ∀ x ∈ moves, x.keepsSession = true) :
    let set := (w.move a (.setConfig config)).1
    let named := (w.move a (.setConfig { w.engine.config with chunkName := config.chunkName })).1
    let started := (new ((set.run a moves).move a .cleanup).1.store config).move a .start
    (set.replies a moves = named.replies a moves ∧
      (set.run a moves).engine.session? = (named.run a moves).engine.session?) ∧
    (config.chunkName = w.engine.config.chunkName →
      set.replies a moves = w.replies a moves ∧
      (set.run a moves).engine.session? = (w.run a moves).engine.session?) ∧
    ((set.run a moves).move a .reset).1 = started.1 ∧
    ((set.run a moves).move a .reset).2.answer? = started.2.answer? ∧
    ((set.run a moves).move a .cleanup).1.move a .start = started := by
  intro set named started
  obtain ⟨s, session⟩ := Option.isSome_iff_exists.1 ready
  -- Engines that differ in what only a new session reads go on alike.
  have same : ∀ {w' : World σ}, set.Alike w' → set.replies a moves = w'.replies a moves ∧
      (set.run a moves).engine.session? = (w'.run a moves).engine.session? := by
    intro w' alike
    obtain ⟨replies, last⟩ := alike.run keeps
    obtain ⟨s', here, there⟩ := last.session
    exact ⟨replies, here.trans there.symm⟩
  have config' : (set.run a moves).engine.config = config := run_config_keeps set keeps
  obtain ⟨world, answer⟩ := move_reset_start a (set.run a moves)
  rw [config'] at world answer
  refine ⟨same ⟨rfl, ⟨s, session, session⟩, rfl⟩, fun name => same ⟨rfl, ⟨s, session, session⟩, name⟩,
    world, answer, ?_⟩
  rw [move_cleanup, config']

/-- A limit under which no session could be made does not concern the one that there is. -/
theorem replies_setConfig_limit :
    let a := Around.still MemoryVault.view
    let w := fresh (MemoryVault.empty "Notes") .standard
    let moves : List (Move MemoryVault) := [.execute "x = 1", .start, .banner]
    (w.move a (.setConfig ⟨"console", some 1⟩)).1.replies a moves = w.replies a moves := by
  intro a w moves
  have keeps : ∀ x ∈ moves, x.keepsSession = true := by
    simp [moves, Move.keepsSession]
  exact ((@replies_setConfig _ a w rfl ⟨"console", some 1⟩ moves keeps).2.1 rfl).1

/-! ## The name of chunks -/

/-- An execution of a source that does not compile fails with the message of that. -/
theorem execute_uncompiled {config : EngineConfig} {s : Lua.Session} {source : String} {cause : ScriptError}
    (fails : Lua.Session.compile s.heap.dumped config.sourceName source = .error cause) (o : Outside) :
    (Engine.execute ⟨config, some s⟩ o source).result = some (.error (.execution cause.message)) := by
  have answer : (Engine.execute ⟨config, some s⟩ o source).result =
      (s.execute o.host config.sourceName source).2.map (·.mapError EngineError.ofScript) :=
    (Engine.executeBy_ready config s _ source).2
  obtain ⟨heap, threads, runner⟩ := s
  have fails : Lua.Session.compile heap.dumped config.sourceName source = .error cause := fails
  rw [answer, Lua.Session.execute, Lua.Session.evaluate]
  simp only [fails]
  rfl

/-- The message of the error for which a source does not compile. -/
def faultMessage? (name source : String) : Option String :=
  match Lua.Session.compile #[] name source with
  | .ok _ => none
  | .error cause => some cause.message

/-- A new session tells under the name of chunks why a source does not compile. -/
theorem answer_uncompiled (a : Around σ) (store : σ) {name source message : String}
    (fails : faultMessage? ("=" ++ name) source = some message) :
    ((⟨store, ⟨⟨name, none⟩, some (Lua.Session.fresh none)⟩⟩ : World σ).move a (.execute source)).2.answer? =
      some (.error (.execution message)) := by
  unfold faultMessage? at fails
  split at fails
  · cases fails
  · rename_i cause failed
    obtain rfl := Option.some.inj fails
    have told : (Engine.execute ⟨⟨name, none⟩, some (Lua.Session.fresh none)⟩ (a.view store) source).result = _ :=
      execute_uncompiled failed (a.view store)
    exact congrArg (Option.map (·.map Engine.Answer.result)) told

/-- The name of chunks shows at once: after a change of it, the message of the next error has the new name. -/
theorem replies_setConfig_name :
    let a := Around.still MemoryVault.view
    let w := fresh (MemoryVault.empty "Notes") .standard
    (w.move a (.setConfig ⟨"other", none⟩)).1.replies a [.execute "local = 1"] ≠
      w.replies a [.execute "local = 1"] := by
  intro a w same
  have fails : faultMessage? ("=" ++ "console") "local = 1" = some "console:1: <name> expected near '='" := by
    decide +kernel
  have fails' : faultMessage? ("=" ++ "other") "local = 1" = some "other:1: <name> expected near '='" := by
    decide +kernel
  have before := answer_uncompiled a (MemoryVault.empty "Notes") fails
  have after := answer_uncompiled a (MemoryVault.empty "Notes") fails'
  have answers := (after.symm.trans (congrArg Reply.answer? (List.cons.inj same).1)).trans before
  exact absurd (EngineError.execution.inj (Except.error.inj (Option.some.inj answers))) (by decide)

end World

end VaultConsole
