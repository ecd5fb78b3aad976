import VaultConsole.Lua.Bare
import VaultConsole.Proofs.System

/-!
# What a reset leaves

An engine lives in the middle of a vault and a process, which others change too, and which scripts reach by calls to
the platform. A `World` is the engine with what is `Around` it at one moment, a `Move` is what can happen to them,
and a run is moves in order, each with its reply: events, calls to the platform, and an answer if the engine comes
back. `run_store` and `run_config` say what a history amounts to for what is around and for the configuration.
Nothing else of it is left after a reset (`move_reset`): the session that a reset makes is the fresh one of its
memory limit. So `replies_reset` compares a world that had any history with a world of a new engine, and finds no
difference in any reply from then on, as long as the vault and the process are in the same state. The state of the
process counts: `replies_reset_locale` sets the locale, and a reset leaves it set. Random numbers and references
belong to the session here, and clocks to the process, so they are no exception.
-/

namespace VaultConsole

/-- What is around an engine, of whatever states it has: how an engine meets it, and what calls to the platform,
latest first, make of it. -/
structure Around (σ : Type) where
  view : σ → Outside
  after : σ → List Lua.PlatformCall → σ
  after_nil : ∀ store, after store [] = store
  /-- What is met later is what the calls in between have left. -/
  view_after : ∀ store calls, view (after store calls) = (view store).after calls

namespace Around

/-- Vaults beside a process in which nothing comes back. -/
def still {σ : Type} (view : σ → Vault) : Around σ where
  view store := .around (view store) .still
  after store _ := store
  after_nil _ := rfl
  view_after _ _ := rfl

/-- Vaults beside a process, which is told by the calls that it was asked for, latest first. -/
def beside {σ : Type} (view : σ → Vault) (p : Lua.Platform) : Around (σ × List Lua.PlatformCall) where
  view store := .around (view store.1) (p.after store.2)
  after store calls := (store.1, calls ++ store.2)
  after_nil _ := rfl
  view_after store calls := congrArg (Outside.around (view store.1)) (p.after_append calls store.2)

end Around

/-- What can happen to an engine and to what is around it. -/
inductive Move (σ : Type) where
  | start
  | reset
  | cleanup
  | execute (source : String)
  | banner
  | setConfig (config : EngineConfig)
  /-- What is around is changed, or asked, by others. -/
  | touch (f : σ → σ × Engine.Answer)

namespace Move

variable {σ : Type}

/-- What a move makes by itself of what is around. -/
def onStore : Move σ → σ → σ
  | .touch f, store => (f store).1
  | _, store => store

/-- What a move makes of the configuration. -/
def onConfig : Move σ → EngineConfig → EngineConfig
  | .setConfig config, _ => config
  | _, config => config

/-- Whether a move may make a session. -/
def makesSession : Move σ → Bool
  | .start => true
  | .reset => true
  | _ => false

end Move

/-- What is noticed of a move. -/
structure Reply where
  events : List LogEvent
  /-- The calls to the platform, latest first. -/
  calls : List Lua.PlatformCall
  /-- Nothing if the engine does not come back. -/
  answer? : Option (Except EngineError Engine.Answer)

/-- An engine, and the state of what is around it. -/
structure World (σ : Type) where
  store : σ
  engine : Engine

namespace World

variable {σ : Type} (a : Around σ)

/-- A world with a new engine. -/
def new (store : σ) (config : EngineConfig) : World σ := ⟨store, Engine.new config⟩

/-- A world after the response of its engine, which answers so. -/
def respond {ρ : Type} (w : World σ) (r : Response ρ) (answer? : Option (Except EngineError Engine.Answer)) :
    World σ × Reply :=
  (⟨a.after w.store r.calls, r.engine⟩, ⟨r.events, r.calls, answer?⟩)

/-- A world after a move, and the reply to it. -/
def move (w : World σ) : Move σ → World σ × Reply
  | .start =>
    let r := w.engine.start
    w.respond a r (some (r.result.map fun _ => .none))
  | .reset =>
    let r := w.engine.reset
    w.respond a r (some (r.result.map fun _ => .none))
  | .cleanup =>
    let r := w.engine.cleanup
    w.respond a r (some (r.result.map fun _ => .none))
  | .execute source =>
    let r := w.engine.execute (a.view w.store) source
    w.respond a r (r.result.map (·.map .result))
  | .banner =>
    let r := w.engine.banner (a.view w.store)
    w.respond a r (r.result.map (·.map .text))
  | .setConfig config => (⟨w.store, w.engine.setConfig config⟩, ⟨[], [], some (.ok .none)⟩)
  | .touch f => (⟨(f w.store).1, w.engine⟩, ⟨[], [], some (.ok (f w.store).2)⟩)

/-- A world after moves in order. -/
def run (w : World σ) (moves : List (Move σ)) : World σ := moves.foldl (fun w x => (w.move a x).1) w

/-- The replies to moves in order. -/
def replies (w : World σ) : List (Move σ) → List Reply
  | [] => []
  | x :: moves => (w.move a x).2 :: replies (w.move a x).1 moves

variable {a}

/-! ## What a history amounts to -/

/-- What is around is what a move makes of it, and then the calls that it leads to. -/
theorem move_store (a : Around σ) (w : World σ) (x : Move σ) :
    (w.move a x).1.store = a.after (x.onStore w.store) (w.move a x).2.calls := by
  cases x with
  | setConfig config => exact (a.after_nil _).symm
  | touch f => exact (a.after_nil _).symm
  | _ => rfl

/-- Making a session leaves the configuration alone. -/
theorem startBy_config (e : Engine) (make : Option Nat → Except ScriptError Lua.Session) :
    (e.startBy make).engine.config = e.config := by
  unfold Engine.startBy
  split
  · rfl
  · split
    · rfl
    · rfl

/-- Making a session asks nothing of the platform. -/
theorem startBy_calls (e : Engine) (make : Option Nat → Except ScriptError Lua.Session) :
    (e.startBy make).calls = [] := by
  unfold Engine.startBy
  split
  · rfl
  · split
    · rfl
    · rfl

theorem execute_config (e : Engine) (o : Outside) (source : String) :
    (e.execute o source).engine.config = e.config := by
  obtain ⟨config, session?⟩ := e
  cases session? with
  | none => rfl
  | some s =>
    rw [Engine.execute, (Engine.executeBy_ready config s _ source).1]

theorem banner_config (e : Engine) (o : Outside) : (e.banner o).engine.config = e.config := by
  obtain ⟨config, session?⟩ := e
  cases session? with
  | none => rfl
  | some s => rfl

theorem move_config (a : Around σ) (w : World σ) (x : Move σ) :
    (w.move a x).1.engine.config = x.onConfig w.engine.config := by
  cases x with
  | start => exact startBy_config w.engine Lua.Session.start
  | reset =>
    show w.engine.reset.engine.config = _
    rw [Engine.reset, Engine.resetBy_engine, startBy_config]
    rfl
  | cleanup =>
    show w.engine.cleanup.engine.config = _
    rw [Engine.cleanup_engine]
    rfl
  | execute source => exact execute_config w.engine (a.view w.store) source
  | banner => exact banner_config w.engine (a.view w.store)
  | setConfig config => rfl
  | touch f => rfl

/-- What is around is what the moves make of it in order, each with the calls that it leads to. -/
theorem run_store (w : World σ) (moves : List (Move σ)) :
    (w.run a moves).store =
      (moves.zip (w.replies a moves)).foldl (fun store x => a.after (x.1.onStore store) x.2.calls) w.store := by
  induction moves generalizing w with
  | nil => rfl
  | cons x moves ih =>
    rw [replies, List.zip_cons_cons, List.foldl_cons, ← move_store a]
    exact ih (w.move a x).1

/-- Where calls leave what is around alone, it is what moves make of it by themselves. -/
theorem move_still (view : σ → Vault) (w : World σ) (x : Move σ) :
    (w.move (Around.still view) x).1.store = x.onStore w.store := move_store (Around.still view) w x

theorem run_still (view : σ → Vault) (w : World σ) (moves : List (Move σ)) :
    (w.run (Around.still view) moves).store = moves.foldl (fun store x => x.onStore store) w.store := by
  induction moves generalizing w with
  | nil => rfl
  | cons x moves ih =>
    rw [List.foldl_cons, ← move_still view]
    exact ih (w.move (Around.still view) x).1

theorem run_append (w : World σ) (moves later : List (Move σ)) :
    w.run a (moves ++ later) = (w.run a moves).run a later := List.foldl_append

theorem replies_append (w : World σ) (moves later : List (Move σ)) :
    w.replies a (moves ++ later) = w.replies a moves ++ (w.run a moves).replies a later := by
  induction moves generalizing w with
  | nil => rfl
  | cons x moves ih => exact congrArg (List.cons _) (ih (w.move a x).1)

/-- The configuration is the one that was set last. -/
theorem run_config (w : World σ) (moves : List (Move σ)) :
    (w.run a moves).engine.config = moves.foldl (fun config x => x.onConfig config) w.engine.config := by
  induction moves generalizing w with
  | nil => rfl
  | cons x moves ih =>
    rw [List.foldl_cons, ← move_config a]
    exact ih (w.move a x).1

/-- No session comes from moves that make none. -/
theorem move_session {w : World σ} (unready : w.engine.session? = none) {x : Move σ}
    (idle : x.makesSession = false) : (w.move a x).1.engine.session? = none := by
  obtain ⟨store, config, session?⟩ := w
  obtain rfl : session? = none := unready
  cases x with
  | start => cases idle
  | reset => cases idle
  | _ => rfl

theorem run_session {w : World σ} (unready : w.engine.session? = none) {moves : List (Move σ)}
    (idle : ∀ x ∈ moves, x.makesSession = false) : (w.run a moves).engine.session? = none := by
  induction moves generalizing w with
  | nil => exact unready
  | cons x moves ih =>
    have first : (w.move a x).1.engine.session? = none := move_session unready (idle x List.mem_cons_self)
    exact ih first fun y later => idle y (List.mem_cons_of_mem x later)

/-! ## Sessions that are made -/

/-- A world that has just got its session. -/
def fresh (store : σ) (config : EngineConfig) : World σ :=
  ⟨store, config, some (Lua.Session.fresh config.memoryLimit?)⟩

/-- What becomes of an initialization without a session before it. -/
theorem move_start_cases (a : Around σ) {w : World σ} (unready : w.engine.session? = none) :
    (w.engine.config.memoryLimit? ≠ none ∧
        ∃ cause, (w.move a .start).2.answer? = some (.error (.initialization cause))) ∨
      ((w.move a .start).2.answer? = some (.ok .none) ∧
        (w.move a .start).1 = fresh w.store w.engine.config) := by
  obtain ⟨store, config, session?⟩ := w
  obtain rfl : session? = none := unready
  obtain ⟨limited, cause, failed⟩ | made := Lua.Session.start_cases config.memoryLimit?
  · refine .inl ⟨limited, cause, ?_⟩
    have result : (Engine.start ⟨config, none⟩).result = .error (.initialization cause) := by
      rw [Engine.start, Engine.startBy_failed failed]
    exact congrArg (fun r => some (Except.map (fun _ => Engine.Answer.none) r)) result
  · have response : Engine.start ⟨config, none⟩ =
        ⟨⟨config, some (Lua.Session.fresh config.memoryLimit?)⟩, [.initialized], [], .ok ()⟩ := by
      rw [Engine.start, Engine.startBy_fresh made]
    simp only [move, response, respond, a.after_nil]
    exact .inr ⟨rfl, rfl⟩

/-- An initialization that succeeds without a session before it gives the fresh session. -/
theorem move_start {w : World σ} (unready : w.engine.session? = none)
    (ok : (w.move a .start).2.answer? = some (.ok .none)) :
    (w.move a .start).1 = fresh w.store w.engine.config := by
  obtain ⟨-, cause, failed⟩ | ⟨-, made⟩ := move_start_cases a unready
  · cases failed.symm.trans ok
  · exact made

/-- Without a limit on memory, an initialization succeeds. -/
theorem start_unlimited {w : World σ} (unready : w.engine.session? = none)
    (unlimited : w.engine.config.memoryLimit? = none) : (w.move a .start).2.answer? = some (.ok .none) := by
  obtain ⟨limited, -⟩ | ⟨ok, -⟩ := move_start_cases a unready
  · exact absurd unlimited limited
  · exact ok

/-- After a cleanup, an initialization goes as that of a new engine. -/
theorem move_cleanup (a : Around σ) (w : World σ) :
    (w.move a .cleanup).1 = new (w.move a .cleanup).1.store w.engine.config :=
  congrArg (World.mk _) (Engine.cleanup_engine w.engine)

/-- A reset goes as an initialization of a new engine goes, whatever session there was: of that, no more is left than
what its release has made of what is around. -/
theorem move_reset_start (a : Around σ) (w : World σ) :
    (w.move a .reset).1 = ((new (w.move a .cleanup).1.store w.engine.config).move a .start).1 ∧
      (w.move a .reset).2.answer? =
        ((new (w.move a .cleanup).1.store w.engine.config).move a .start).2.answer? := by
  have still : ∀ e : Engine, e.start.calls = [] := fun e => startBy_calls e Lua.Session.start
  have calls : w.engine.reset.calls = w.engine.cleanup.calls := by
    rw [Engine.reset, Engine.resetBy, startBy_calls, List.nil_append]
  have store : (w.move a .reset).1.store =
      ((new (w.move a .cleanup).1.store w.engine.config).move a .start).1.store := by
    show a.after w.store w.engine.reset.calls = a.after _ (Engine.start _).calls
    rw [calls, still, a.after_nil]
    rfl
  constructor
  · exact congrArg₂ World.mk store (Engine.resetBy_engine w.engine Lua.Session.start)
  · exact congrArg (fun r => some (Except.map _ r)) (Engine.resetBy_result w.engine Lua.Session.start)

/-- A session that is made is the fresh one, whatever there was before. -/
theorem move_reset {w : World σ} (ok : (w.move a .reset).2.answer? = some (.ok .none)) :
    (w.move a .reset).1 = fresh (w.move a .cleanup).1.store w.engine.config := by
  obtain ⟨same, answer⟩ := move_reset_start a w
  rw [same]
  exact move_start rfl (answer ▸ ok)

/-- **A reset erases history.** Take a run of a new engine through any moves and a reset that succeeds, and a
run of another new engine through moves that make no session and an initialization that succeeds. If the vaults and
the processes are in the same state at the end and the configurations are the same, then the two worlds reply to
everything that comes in the same way. -/
theorem replies_reset (a : Around σ) (store store' : σ) (config config' : EngineConfig)
    (history waiting : List (Move σ)) (idle : ∀ x ∈ waiting, x.makesSession = false) :
    let reset := ((new store config).run a history).move a .reset
    let started := ((new store' config').run a waiting).move a .start
    reset.2.answer? = some (.ok .none) → started.2.answer? = some (.ok .none) →
    reset.1.store = started.1.store → reset.1.engine.config = started.1.engine.config →
    ∀ further, reset.1.replies a further = started.1.replies a further := by
  intro reset started resets starts stores configs further
  have unready : ((new store' config').run a waiting).engine.session? = none := run_session rfl idle
  have first : reset.1 = fresh _ _ := move_reset resets
  have second : started.1 = fresh _ _ := move_start unready starts
  have same : reset.1 = started.1 := by
    rw [first, second] at stores configs ⊢
    exact congrArg₂ fresh stores configs
  rw [same]

/-- A session whose globals were taken away, in a vault that was changed, with another configuration. -/
theorem replies_reset_globals :
    let a := Around.still MemoryVault.view
    let insert : Move MemoryVault := .touch fun v => (v.insert "a.md" "x", .none)
    let rename : Move MemoryVault := .setConfig ⟨"other", none⟩
    let first := (new (MemoryVault.empty "Notes") .standard).run a
      [.start, insert, .execute "print, app, Note, log, tostring = nil", rename]
    let second := (new (MemoryVault.empty "Notes") .standard).run a [insert, rename]
    let further : List (Move MemoryVault) := [.execute "print(app.getName())", .banner]
    (first.move a .reset).1.replies a further = (second.move a .start).1.replies a further := by
  intro a insert rename first second further
  have idle : ∀ x ∈ [insert, rename], x.makesSession = false := by
    intro x listed
    obtain rfl | rfl : x = insert ∨ x = rename := by simpa using listed
    · rfl
    · rfl
  have store : first.store = (MemoryVault.empty "Notes").insert "a.md" "x" := run_still _ _ _
  have store' : second.store = (MemoryVault.empty "Notes").insert "a.md" "x" := run_still _ _ _
  have config : first.engine.config = ⟨"other", none⟩ := run_config _ _
  have config' : second.engine.config = ⟨"other", none⟩ := run_config _ _
  -- Neither start can fail, as memory is not limited.
  have reset : (first.move a .reset).2.answer? = some (.ok .none) := by
    rw [(move_reset_start a first).2]
    exact start_unlimited rfl (congrArg EngineConfig.memoryLimit? config)
  have started : (second.move a .start).2.answer? = some (.ok .none) :=
    start_unlimited (run_session rfl idle) (congrArg EngineConfig.memoryLimit? config')
  have configs : (first.move a .reset).1.engine.config = (second.move a .start).1.engine.config := by
    rw [move_config, move_config]
    exact config.trans config'.symm
  have stores : (first.move a .reset).1.store = (second.move a .start).1.store := by
    rw [move_still, move_still]
    exact store.trans store'.symm
  exact replies_reset a _ _ _ _ _ _ idle reset started stores configs further

/-! ## What a reset does not touch

The locale is that of the process. -/

section

open Lua

/-- The chunks that set a part of the locale, and that ask for it. -/
theorem compile_setting : Session.compile #[] EngineConfig.standard.sourceName "os.setlocale('C.UTF-8', 'ctype')" =
    .ok (Session.systemChunk "setlocale" [.text "C.UTF-8", .text "ctype"]) :=
  Session.compile_of_same (by decide +kernel)

theorem compile_asking : Session.compile #[] EngineConfig.standard.sourceName "os.setlocale(nil, 'ctype')" =
    .ok (Session.systemChunk "setlocale" [.nil, .text "ctype"]) :=
  Session.compile_of_same (by decide +kernel)

/-- A new session sets the locale of the process, and has no file to close after that. -/
theorem execute_setting {o : Outside} {answer : Option ByteArray}
    (told : o.platform.answer [] (.setlocale (some "C.UTF-8".toUTF8) .ctype) = some answer) :
    ∃ s r, s.heap.streams.closings = [] ∧
      Engine.execute ⟨.standard, some (.fresh none)⟩ o "os.setlocale('C.UTF-8', 'ctype')" =
        ⟨⟨.standard, some s⟩, [.executing 32], [.setlocale (some "C.UTF-8".toUTF8) .ctype], some (.ok r)⟩ := by
  have named : ∀ h, (Args.name? [.text "C.UTF-8", .text "ctype"] 1).run h = .done (some "C.UTF-8".toUTF8) h := by
    intro h
    have plain : (beforeNul "C.UTF-8".toUTF8.toList).toByteArray = "C.UTF-8".toUTF8 := by decide +kernel
    exact congrArg (fun name => Act.done (some name) h) plain
  obtain ⟨s, heap, response⟩ := Engine.execute_of_answered (f := .setlocale) (by decide) compile_setting
    (Library.run_setlocale named 1) told (fun h => rfl)
  refine ⟨s, _, ?_, response⟩
  rw [heap]
  rfl

/-- A new session is told the locale of the process after all calls. -/
theorem answer_asking (v : MemoryVault) {calls : List PlatformCall} {name : String}
    (current : Bare.currentLocale calls .ctype = name.toUTF8) (plain : Text.Utf8.lossy name.toUTF8 = name) :
    ((fresh (v, calls) .standard).move (Around.beside MemoryVault.view Bare.platform)
      (.execute "os.setlocale(nil, 'ctype')")).2.answer? = some (.ok (.result (.value (.string name)))) := by
  let o := (Around.beside MemoryVault.view Bare.platform).view (v, calls)
  have told : o.platform.answer [] (.setlocale none .ctype) = some (some name.toUTF8) :=
    congrArg (fun found => some (some found)) current
  obtain ⟨s, -, response⟩ := Engine.execute_of_answered (f := .setlocale) (by decide) compile_asking
    (Library.run_setlocale (fun h => rfl) 1) told (fun h => rfl)
  show (Engine.execute ⟨.standard, some (.fresh none)⟩ o "os.setlocale(nil, 'ctype')").result.map _ = _
  rw [response, Library.stringOr, Heap.exportValue, View.exportValue, View.exportWithin, plain]
  rfl

/-- The world of a new engine that has set the locale. -/
theorem run_setting (v : MemoryVault) :
    ∃ s : Lua.Session, s.heap.streams.closings = [] ∧
      (new (v, []) .standard).run (Around.beside MemoryVault.view Bare.platform)
        [.start, .execute "os.setlocale('C.UTF-8', 'ctype')"] =
      ⟨(v, [.setlocale (some "C.UTF-8".toUTF8) .ctype]), .standard, some s⟩ := by
  have told : ((Around.beside MemoryVault.view Bare.platform).view (v, [])).platform.answer []
      (.setlocale (some "C.UTF-8".toUTF8) .ctype) = some (some "C.UTF-8".toUTF8) := by
    have known : Bare.localeName? "C.UTF-8".toUTF8 = some "C.UTF-8".toUTF8 := by decide +kernel
    exact congrArg some known
  obtain ⟨s, r, still, response⟩ := execute_setting told
  have started : ((new (v, []) .standard).move (Around.beside MemoryVault.view Bare.platform) .start).1 =
      ⟨(v, []), .standard, some (.fresh none)⟩ := move_start rfl (start_unlimited rfl rfl)
  refine ⟨s, still, ?_⟩
  rw [run, List.foldl_cons, List.foldl_cons, List.foldl_nil, started]
  simp only [move, respond, response]
  rfl

/-- The vaults are the same after a reset and after a start, and so are the configurations, but the one process has
another locale than the other. -/
theorem replies_reset_locale :
    let a := Around.beside MemoryVault.view Bare.platform
    let begun : World (MemoryVault × List PlatformCall) := new (MemoryVault.empty "Notes", []) .standard
    let reset := (begun.run a [.start, .execute "os.setlocale('C.UTF-8', 'ctype')"]).move a .reset
    let started := begun.move a .start
    let asked : Move (MemoryVault × List PlatformCall) := .execute "os.setlocale(nil, 'ctype')"
    reset.2.answer? = some (.ok .none) ∧ started.2.answer? = some (.ok .none) ∧
    reset.1.store.1 = started.1.store.1 ∧ reset.1.engine.config = started.1.engine.config ∧
    (reset.1.move a asked).2.answer? = some (.ok (.result (.value (.string "C.UTF-8")))) ∧
    (started.1.move a asked).2.answer? = some (.ok (.result (.value (.string "C")))) := by
  intro a begun reset started asked
  have starts : started.2.answer? = some (.ok .none) := start_unlimited rfl rfl
  have second : started.1 = fresh (MemoryVault.empty "Notes", []) .standard := move_start rfl starts
  obtain ⟨s, still, first⟩ := run_setting (MemoryVault.empty "Notes")
  have resets : reset.2.answer? = some (.ok .none) := by
    rw [(move_reset_start a _).2]
    exact start_unlimited rfl (by rw [first]; rfl)
  -- The release of the session makes no further call.
  have made : reset.1 =
      fresh (MemoryVault.empty "Notes", [.setlocale (some "C.UTF-8".toUTF8) .ctype]) .standard := by
    rw [move_reset resets, first]
    exact congrArg (fun calls => fresh (_, calls ++ _) _) still
  refine ⟨resets, starts, ?_, ?_, ?_, ?_⟩
  · rw [made, second]
    rfl
  · rw [made, second]
    rfl
  · rw [made]
    exact answer_asking _ (by decide +kernel) (by decide +kernel)
  · rw [second]
    exact answer_asking _ (by decide +kernel) (by decide +kernel)

end

end World

end VaultConsole
