import VaultConsole.Proofs.Runner.Start
import VaultConsole.Proofs.Utf8

/-!
# The banner of a new session

A session finds its banner in a table that its globals lead to, and a new one has that table as it was made
(`banner_fresh`): the banner of a new session is the text that the console is greeted with, whatever the limit
on memory.
-/

namespace VaultConsole.Lua

namespace Library

/-- A string that is UTF-8 is read as its text. -/
theorem textOf_of_decode {bytes : ByteArray} {text : String} (decoded : Text.Utf8.decode bytes = .ok text) :
    textOf (.string bytes) = .ok text := by
  simp only [textOf, Value.toBytes?, decoded]

/-- A text is read back from its value. -/
theorem textOf_text (s : String) : textOf (.text s) = .ok s := textOf_of_decode (Text.Utf8.decode_eq_ok.2 rfl)

/-- A value that a table has itself is found without a metatable. -/
theorem run_fieldProtected {h : Heap} {r : Nat} {key v : Value} (found : h.rawGet r key = v)
    (solid : v.isNil = false) (fuel : Nat) :
    (fieldProtected (fuel + 1) (.table r) key).run h = .done (.ok v) h := by
  have raw : (Action.inspect (·.rawGet r key)).run h = .done v h := by
    rw [← found]
    rfl
  rw [fieldProtected, Action.run_bind_of_done raw]
  simp only [solid, Bool.not_false, if_true]
  rfl

/-- A global that the table of globals has itself is found there. -/
theorem run_globalValue {h : Heap} {name : String} {v : Value} (found : h.rawGet h.globals (.text name) = v)
    (solid : v.isNil = false) : (globalValue name).run h = .done v h := by
  have globals : (Action.inspect (·.globals)).run h = .done h.globals h := rfl
  have direct : (fieldProtected Metamethod.maxChain (.table h.globals) (.text name)).run h = .done (.ok v) h :=
    run_fieldProtected found solid 1999
  rw [globalValue, Action.run_bind_of_done globals, Action.run_bind_of_done direct]
  rfl

end Library

namespace Session

/-- What the host does by itself leaves a session as it is, but for its heap. -/
theorem perform_done (host : Host) {s : Session} {a : Action (List Value)} {vs : List Value}
    (done : a.run s.heap = .done vs s.heap) : s.perform host a = (s, .returned vs) := by
  obtain ⟨heap, threads, runner⟩ := s
  have begins : Machine.runNative host ⟨.done, default, [.native .nil pure 0 0], heap, 0, 0, 0, threads, []⟩
      .nil a = ⟨.give vs, default, [.native .nil pure 0 0], heap, 0, 0, 0, threads, []⟩ :=
    Machine.runNative_of_done done .nil
  have ended : ((Machine.step host)^[3] ⟨.give vs, default, [.native .nil pure 0 0], heap, 0, 0, 0, threads,
      []⟩) = ⟨.finished vs, default, [], heap, 0, 0, 0, threads, []⟩ := rfl
  have long : 3 ≤ patience := by decide
  have whole : (⟨heap, threads, runner⟩ : Session).perform host a =
      let m := Machine.run host patience (Machine.runNative host
        ⟨.done, default, [.native .nil pure 0 0], heap, 0, 0, 0, threads, []⟩ .nil a)
      (⟨m.heap, m.threads, runner⟩, ending { m with heap := default, threads := #[] }) := rfl
  rw [whole, begins, Machine.run_eq_of_ended long (by rw [ended]; rfl), ended]
  rfl

/-- A session that has logged nothing, and asked nothing of the platform, has nothing to forget. -/
theorem forgetting_eq {s : Session} (silent : s.heap.logged = []) (still : s.heap.calls = []) :
    { s with heap := { s.heap with logged := [], calls := [] } } = s := by
  obtain ⟨heap, threads, runner⟩ := s
  obtain ⟨⟩ := heap
  cases silent
  cases still
  rfl

/-- A new session has its banner, and reading it leaves the session as it is. -/
theorem banner_fresh (host : Host) (limit? : Option Nat) :
    (fresh limit?).banner host = (fresh limit?, some (.ok (About.banner Library.languageVersion))) := by
  obtain ⟨_, _, about, globals, -, -, there, namespace', -⟩ := Library.exists_globals limit?
  have found := rawGet_fresh limit? globals there
  have header : (fresh limit?).heap.rawGet about (.text "header") = .text (About.banner Library.languageVersion) := by
    rw [Heap.rawGet, table_fresh, namespace']
    exact (Table.isRecord_tableOf (by decide) (by decide)).get_text (by simp [Library.aboutEntries])
  have direct : (Library.fieldProtected Metamethod.maxChain (.table about) (.text "header")).run
      (fresh limit?).heap = .done (.ok (.text (About.banner Library.languageVersion))) (fresh limit?).heap :=
    Library.run_fieldProtected header rfl 1999
  unfold banner
  rw [forgetting_eq rfl rfl, @perform_done host _ _ [.text (About.banner Library.languageVersion)]]
  · simp only [List.headD_cons, Library.textOf_text]
  · rw [Action.run_bind_of_done (Library.run_globalValue found rfl)]
    simp only
    rw [Action.run_bind_of_done direct]
    simp only [Library.textOf_text]
    rfl

end Session

end VaultConsole.Lua

namespace VaultConsole.Engine

/-- An engine with a new session has the banner, and nothing is noticed of asking for it. -/
theorem banner_fresh (config : EngineConfig) (limit? : Option Nat) (o : Outside) :
    banner ⟨config, some (.fresh limit?)⟩ o =
      ⟨⟨config, some (.fresh limit?)⟩, [], [], some (.ok (About.banner Lua.Library.languageVersion))⟩ := by
  have silent : (Lua.Session.fresh limit?).heap.logged = [] := rfl
  have still : (Lua.Session.fresh limit?).heap.calls = [] := rfl
  simp only [banner, bannerBy, Lua.Session.banner_fresh, silent, still]
  rfl

end VaultConsole.Engine
