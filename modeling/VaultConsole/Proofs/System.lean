import VaultConsole.Proofs.Failures
import VaultConsole.Proofs.Machine.Hosted
import VaultConsole.Proofs.Runner.Outcomes

/-!
# Scripts that call the system

A script that gives back what a function on the system makes of constants. It fetches the function
(`Session.step_systemCall`), which asks the platform: if there is an answer, the script gives back what the function
makes of it (`Engine.execute_of_answered`), and if there is none, the execution has no result
(`Engine.execute_of_unanswered`). In either case the call was made, and nothing else.
-/

namespace VaultConsole

open Lua

namespace Lua

/-! ## The script -/

/-- The code that fetches a function on the system. -/
def systemCode (name : String) : Code := .index (Machine.globalCode 0 "os" 1) (.const (.text name)) 1

/-- The steps that give back what the function makes of constants. -/
def systemSteps (name : String) (vs : List Value) : List Step :=
  [.tailCall (.call (systemCode name) (vs.map .const) 1)]

namespace Machine

variable {host : Host} {m : Machine}

theorem takeAtoms_const (m : Machine) (done vs : List Value) :
    m.takeAtoms done (vs.map .const) = (vs.reverse ++ done, []) := by
  induction vs generalizing done with
  | nil => rfl
  | cons v vs ih =>
    rw [List.map_cons, List.reverse_cons, List.append_assoc]
    exact ih (v :: done)

/-- Constants are taken at once. -/
theorem evalList_const (m : Machine) (vs : List Value) :
    m.evalList [] (vs.map .const) = { m with focus := .values vs } := by
  rw [evalList, takeAtoms_const]
  simp only [List.append_nil, List.reverse_reverse]

/-- A library function that asks the platform goes on with the answer. -/
theorem runNative_of_answered {a : Action (List Value)} {c : PlatformCall} {next : c.Answer → Heap → Act (List Value)}
    {x : c.Answer} {vs : List Value} {h : Heap} (asked : a.run m.heap = .platform c m.heap next)
    (answered : host.platform.answer m.heap.calls c = some x) (last : next x (m.heap.record c) = .done vs h)
    (g : Value) : m.runNative host g a = { m with focus := .give vs, heap := h } := by
  obtain ⟨focus, act, stack, heap, depth, room, thread, threads, resumers⟩ := m
  have goes : ∀ {y : Act (List Value)} (grows : y.Grows heap), y = .platform c heap next →
      continueNative host g ⟨focus, act, stack, default, depth, room, thread, threads, resumers⟩ y grows =
        ⟨.give vs, act, stack, h, depth, room, thread, threads, resumers⟩ := by
    rintro y grows rfl
    have answered : host.platform.answer heap.calls c = some x := answered
    have later : ∀ {z : Act (List Value)} (grows : z.Grows (heap.record c)), z = .done vs h →
        continueNative host g ⟨focus, act, stack, default, depth, room, thread, threads, resumers⟩ z grows =
          ⟨.give vs, act, stack, h, depth, room, thread, threads, resumers⟩ := by
      rintro z grows rfl
      rfl
    simp only [continueNative, answered]
    exact later _ last
  exact goes _ asked

/-- A library function whose question has no answer never comes back. -/
theorem runNative_of_unanswered {a : Action (List Value)} {c : PlatformCall}
    {next : c.Answer → Heap → Act (List Value)} (asked : a.run m.heap = .platform c m.heap next)
    (unanswered : host.platform.answer m.heap.calls c = none) (g : Value) :
    m.runNative host g a = { m with focus := .gone, heap := m.heap.record c } := by
  obtain ⟨focus, act, stack, heap, depth, room, thread, threads, resumers⟩ := m
  have goes : ∀ {y : Act (List Value)} (grows : y.Grows heap), y = .platform c heap next →
      continueNative host g ⟨focus, act, stack, default, depth, room, thread, threads, resumers⟩ y grows =
        ⟨.gone, act, stack, heap.record c, depth, room, thread, threads, resumers⟩ := by
    rintro y grows rfl
    have unanswered : host.platform.answer heap.calls c = none := unanswered
    simp only [continueNative, unanswered]
  exact goes _ asked

end Machine

namespace Session

/-- A new session has the functions on the system in their library. -/
theorem exists_system (limit? : Option Nat) :
    ∃ r, (fresh limit?).heap.rawGet (fresh limit?).heap.globals (.text "os") = .table r ∧
      ∀ e ∈ Library.osFunctions, (fresh limit?).heap.rawGet r (.text e.1) = .builtin (.os e.2) := by
  obtain ⟨globals, -, -, record, -, -, -, -, libraries⟩ := Library.exists_globals limit?
  have member : ("os", Library.named .os Library.osFunctions) ∈ Library.libraries := by
    simp [Library.libraries]
  obtain ⟨r, listed, table⟩ := libraries _ member
  refine ⟨r, rawGet_fresh limit? record listed, fun e there => ?_⟩
  show ((fresh limit?).heap.table r).get _ = _
  rw [table_fresh, table]
  exact (Table.isRecord_tableOf (by decide) (by decide)).get_text (List.mem_map_of_mem there)

/-- The machine that waits for the function on the system. -/
def systemWaiting (name : String) (vs : List Value) : Machine :=
  ((fresh none).begun 2 1 "console".toUTF8 0 (systemSteps name vs)).waiting 1 (.code (systemCode name)) .tail

/-- The chunk of the script. -/
def systemChunk (name : String) (vs : List Value) : Proto := chunkOf "console".toUTF8 0 (systemSteps name vs)

/-- The script fetches the function and calls it: seven steps up to the chunk, one to the function, three to fetch
it, two to the arguments, and one to the call. -/
theorem step_systemCall (host : Host) {name : String} {f : OsFunction} (there : (name, f) ∈ Library.osFunctions)
    (vs : List Value) : (Machine.step host)^[14] ((fresh none).evaluator (systemChunk name vs)) =
      (systemWaiting name vs).runNative host (.builtin (.os f)) (Library.run 1 (.os f) vs) := by
  obtain ⟨r, library, functions⟩ := exists_system none
  let frames : List Frame := [.arguments (systemCode name) (vs.map .const) 1 .tail]
  let chunk (focus : Focus) (frames : List Frame) : Machine :=
    { (fresh none).begun 2 1 "console".toUTF8 0 (systemSteps name vs) with
      focus, stack := frames ++ Runner.guarded 2 1 4 }
  let called : Frame := .call (.builtin (.os f)) (.code (systemCode name)) 1 .tail
  have begins : (Machine.step host)^[7] ((fresh none).evaluator (systemChunk name vs)) =
      (fresh none).begun 2 1 "console".toUTF8 0 (systemSteps name vs) :=
    (begins_or_short host rfl (Runner.isHelper_equipped (startChunk none)) _ (by decide) _).resolve_left
      fun short => short.1 rfl
  have comes : Machine.step host ((fresh none).begun 2 1 "console".toUTF8 0 (systemSteps name vs)) =
      chunk (.eval (systemCode name)) frames := rfl
  have fetched : (Machine.step host)^[3] (chunk (.eval (systemCode name)) frames) =
      chunk (.value (.builtin (.os f))) frames :=
    Machine.step_fetchField host (m := chunk .done frames) rfl library (functions _ there) rfl
  have next : Machine.step host (chunk (.value (.builtin (.os f))) frames) =
      chunk (.evalList [] (vs.map .const)) [called] := rfl
  have taken : Machine.step host (chunk (.evalList [] (vs.map .const)) [called]) = chunk (.values vs) [called] :=
    Machine.evalList_const (chunk .done [called]) vs
  have calls : (chunk (.values vs) [called]).Calls (.builtin (.os f)) vs (systemWaiting name vs) :=
    .code (chunk .done []) _ _ _ _ _
  have enters : Machine.step host (chunk (.values vs) [called]) =
      (systemWaiting name vs).runNative host (.builtin (.os f)) (Library.run 1 (.os f) vs) :=
    Machine.step_eq_enter host calls (by simp)
  rw [show 14 = 1 + (1 + (1 + (3 + (1 + 7)))) from rfl]
  simp only [Function.iterate_add_apply, Function.iterate_one]
  rw [begins, comes, fetched, next, taken, enters]

/-- What the function makes of the answer of the platform is the outcome, and the call is left. -/
theorem outcome_of_answered (host : Host) {name : String} {f : OsFunction} (there : (name, f) ∈ Library.osFunctions)
    {vs ws : List Value} {c : PlatformCall} {next : c.Answer → Heap → Act (List Value)} {x : c.Answer}
    (asked : ∀ h, (Library.run 1 (.os f) vs).run h = .platform c h next)
    (answered : host.platform.answer [] c = some x) (last : ∀ h, next x h = .done ws h) :
    (fresh none).outcome host (systemChunk name vs) = .returned ws ∧
      ((fresh none).afterwards host (systemChunk name vs)).heap =
        ((fresh none).evaluator (systemChunk name vs)).heap.record c := by
  have waiting : (systemWaiting name vs).heap = ((fresh none).evaluator (systemChunk name vs)).heap := rfl
  have given := step_systemCall host there vs
  rw [Machine.runNative_of_answered (asked _) (by rw [waiting]; exact answered) (last _), waiting] at given
  have passes : (Machine.step host)^[3 + 14] ((fresh none).evaluator (systemChunk name vs)) =
      ⟨.give ws, ((fresh none).begun 2 1 "console".toUTF8 0 (systemSteps name vs)).act, Runner.guarded 2 1 4,
        ((fresh none).evaluator (systemChunk name vs)).heap.record c, 1, 9, 1, #[.dead, .active], []⟩ := by
    rw [Function.iterate_add_apply, given]
    rfl
  have begun : (fresh none).cleared.Grows ((fresh none).evaluator (systemChunk name vs)).heap :=
    (fresh none).cleared.grows_newChunk (systemChunk name vs) _
  have grows := begun.trans (Heap.grows_record _ c)
  obtain short | ended := outcome_of_given
    ((Runner.isHelper_equipped (startChunk none)).of_closures grows.closures) (by decide) passes
  · exact absurd rfl short.1
  · exact ended

/-- Without an answer there is no outcome. -/
theorem outcome_of_unanswered (host : Host) {name : String} {f : OsFunction}
    (there : (name, f) ∈ Library.osFunctions) {vs : List Value} {c : PlatformCall}
    {next : c.Answer → Heap → Act (List Value)}
    (asked : ∀ h, (Library.run 1 (.os f) vs).run h = .platform c h next)
    (unanswered : host.platform.answer [] c = none) :
    (fresh none).outcome host (systemChunk name vs) = .absent ∧
      ((fresh none).afterwards host (systemChunk name vs)).heap =
        ((fresh none).evaluator (systemChunk name vs)).heap.record c := by
  have waiting : (systemWaiting name vs).heap = ((fresh none).evaluator (systemChunk name vs)).heap := rfl
  have gone := step_systemCall host there vs
  rw [Machine.runNative_of_unanswered (asked _) (by rw [waiting]; exact unanswered), waiting] at gone
  rw [outcome, afterwards, Machine.run_eq_of_stopped (by decide : 14 ≤ patience) (by rw [gone]; rfl), gone]
  exact ⟨rfl, rfl⟩

end Session

namespace Library

/-- Setting a part of the locale, or asking for it, is one call. -/
theorem run_setlocale {v : Value} {name? : Option ByteArray}
    (named : ∀ h, (Args.name? [v, .text "ctype"] 1).run h = .done name? h) (level : Nat) (h : Heap) :
    (run level (.os .setlocale) [v, .text "ctype"]).run h =
      .platform (.setlocale name? .ctype) h fun answer h => .done [stringOr answer] h := by
  have category : (Args.option [v, .text "ctype"] 2 (some "all") (localeCategories.map Prod.fst)).run h =
      .done "ctype" h := rfl
  show (os .setlocale [v, .text "ctype"]).run h = _
  simp only [os]
  rw [Action.run_bind_of_done (named h), Action.run_bind_of_done category]
  rfl

end Library

end Lua

namespace Engine

variable {config : EngineConfig} {o : Outside} {source name : String} {f : OsFunction} {vs : List Value}
  {c : PlatformCall} {next : c.Answer → Heap → Act (List Value)}

/-- A function that has its answer gives back what it makes of it. -/
theorem execute_of_answered (there : (name, f) ∈ Library.osFunctions)
    (compiled : Session.compile #[] config.sourceName source = .ok (Session.systemChunk name vs)) {x : c.Answer}
    {w : Value} (asked : ∀ h, (Library.run 1 (.os f) vs).run h = .platform c h next)
    (answered : o.platform.answer [] c = some x) (last : ∀ h, next x h = .done [w] h) :
    ∃ s, s.heap = ((Session.fresh none).evaluator (Session.systemChunk name vs)).heap.record c ∧
      execute ⟨config, some (.fresh none)⟩ o source =
        ⟨⟨config, some s⟩, [.executing source.utf8ByteSize], [c], some (.ok (.value (s.heap.exportValue w)))⟩ := by
  obtain ⟨returned, heap⟩ := Session.outcome_of_answered o.host there asked answered last
  generalize left : (Session.fresh none).afterwards o.host (Session.systemChunk name vs) = s at heap
  have compiled : Session.compile (Session.fresh none).heap.dumped config.sourceName source = _ := compiled
  have response : execute ⟨config, some (.fresh none)⟩ o source = ⟨⟨config, some s⟩,
      .executing source.utf8ByteSize :: s.heap.logged.reverse.map .ofRemark, s.heap.calls,
      some (.ok (Session.result s.heap [w]))⟩ := by
    rw [execute, executeBy, Session.execute, Session.evaluate_compiled o.host compiled, returned, left]
  have silent : Session.result s.heap [w] = .value (s.heap.exportValue w) := by
    have nothing : s.heap.printed.text = "" := by
      rw [heap]
      rfl
    rw [Session.result, nothing]
    rfl
  have logged : s.heap.logged = [] := by
    rw [heap]
    rfl
  have calls : s.heap.calls = [c] := by
    rw [heap]
    rfl
  refine ⟨s, heap, ?_⟩
  rw [response, silent, logged, calls]
  rfl

/-- A function that has none never comes back. -/
theorem execute_of_unanswered (there : (name, f) ∈ Library.osFunctions)
    (compiled : Session.compile #[] config.sourceName source = .ok (Session.systemChunk name vs))
    (asked : ∀ h, (Library.run 1 (.os f) vs).run h = .platform c h next)
    (unanswered : o.platform.answer [] c = none) :
    (execute ⟨config, some (.fresh none)⟩ o source).calls = [c] ∧
      (execute ⟨config, some (.fresh none)⟩ o source).result = none := by
  obtain ⟨absent, heap⟩ := Session.outcome_of_unanswered o.host there asked unanswered
  have compiled : Session.compile (Session.fresh none).heap.dumped config.sourceName source = _ := compiled
  generalize left : (Session.fresh none).afterwards o.host (Session.systemChunk name vs) = s at heap
  have response : execute ⟨config, some (.fresh none)⟩ o source = ⟨⟨config, some s⟩,
      .executing source.utf8ByteSize :: s.heap.logged.reverse.map .ofRemark, s.heap.calls, none⟩ := by
    rw [execute, executeBy, Session.execute, Session.evaluate_compiled o.host compiled, absent, left]
  rw [response, heap]
  exact ⟨rfl, rfl⟩

end Engine

end VaultConsole
