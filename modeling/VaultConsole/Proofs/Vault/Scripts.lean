import VaultConsole.Proofs.Failures
import VaultConsole.Proofs.Machine.Hosted

/-!
# What scripts learn of a vault

A new session offers the functions of the host under their names (`Session.offersHost_fresh`).
`Outside.AnswersCalls` says how the vault around an engine answers the host functions that ask about its documents,
and `answersCalls` that every vault which does not let anyone wait answers so, whatever machine asks. The vault is
the one of the moment: calls to the platform may have changed it. From that follows what scripts can see: the
content of a note is what they get when they ask for the content (`ComparesEqual`), and both functions fail with the
same message (`FailsAlike`).
-/

namespace VaultConsole

namespace Lua

/-- Whether scripts find the functions of the host under their names: among the globals, and in the table of
the functions on the vault. -/
structure Heap.OffersHost (h : Heap) : Prop where
  globals : ∀ e ∈ Library.hostFunctions, h.rawGet h.globals (.text e.1) = .builtin (.host e.2)
  app : ∃ app, h.rawGet h.globals (.text "app") = .table app ∧
    ∀ e ∈ Library.appFunctions, h.rawGet app (.text e.1) = .builtin (.host e.2)

/-- The scripts of a new session find the functions of the host. -/
theorem Session.offersHost_fresh (limit? : Option Nat) : (Session.fresh limit?).heap.OffersHost := by
  obtain ⟨globals, app, -, record, ⟨-, direct⟩, ⟨there, functions⟩, -⟩ := Library.exists_globals limit?
  constructor
  · exact fun e listed => rawGet_fresh limit? record (direct (List.mem_map_of_mem listed))
  · refine ⟨app, rawGet_fresh limit? record there, fun e listed => ?_⟩
    rw [Heap.rawGet, table_fresh, functions]
    exact (Table.isRecord_tableOf (by decide) (by decide)).get_text (List.mem_map_of_mem listed)

namespace Machine

/-- The code of `getNoteContent(q) == Note(q).content` with an atom for the query. -/
def comparison (i : Nat) (q : Code) (line : Nat) : Code :=
  .binary .eq (.call (globalCode i "getNoteContent" line) [q] line)
    (.index (.call (globalCode i "Note" line) [q] line) (.const (.text "content")) line) line

/-- The compiler makes this code of a comparison. -/
example : (Session.compile #[] "=console" "local q = ...; return getNoteContent(q) == Note(q).content").toOption.any
    (fun p => p.same (.mk "console".toUTF8 [] true 1 0 [(.carried 0, environmentName)]
      [.locals [.slot 0] [.dots], .ret [comparison 0 (.local (.slot 0) "q".toUTF8) 1] 1])) = true := by
  decide +kernel

end Machine

end Lua

namespace Vault

open Lua Machine

variable {v : Vault} {query : String}

/-! ## Documents and contents -/

theorem content?_of_document {d : Descriptor} (found : v.document query = .ok d) :
    ∃ content, d.content? = some content := by
  unfold document at found
  split at found
  · cases found
  · split at found
    · obtain rfl := Except.ok.inj found
      exact ⟨_, rfl⟩
    · cases found

/-- The content is asked for as the document is, and is the content of that. -/
theorem content_eq_ok {text : String} :
    v.content query = .ok text ↔ ∃ d, v.document query = .ok d ∧ d.content? = some text := by
  rw [content]
  cases found : v.document query with
  | ok d =>
    obtain ⟨content, held⟩ := content?_of_document found
    simp [Except.map, held]
  | error e => simp [Except.map]

theorem content_eq_error {e : BridgeError} : v.content query = .error e ↔ v.document query = .error e := by
  rw [content]
  cases v.document query with
  | ok d => simp [Except.map]
  | error e' => simp [Except.map]

theorem answer_document {query : String} {d : Descriptor} (found : v.document query = .ok d) :
    v.answer (.document query) = .document d := by
  simp only [answer, found]

theorem answer_missing {query : String} {e : BridgeError} (missing : v.document query = .error e) :
    v.answer (.document query) = .failed e := by
  simp only [answer, missing]

end Vault

namespace Outside

open Lua Machine

variable {o : Outside} {query : String}

/-! ## What scripts are answered -/

/-- How the vault answers the scripts that ask about its documents, whatever they have done before. -/
structure AnswersCalls (o : Outside) : Prop where
  /-- A note is a table with the description of the document. -/
  note : ∀ {m m' : Machine} {args : Args} {query : String} {d : Descriptor},
    m.Calls (.builtin (.host .note)) args m' → Library.textOf (args.get 1) = .ok query →
    (o.vault m'.heap.calls).document query = .ok d →
    ∃ r h, m.step o.host = { m' with focus := .give [.table r], heap := h } ∧ h.Describes r d
  /-- The content of a note is a text. -/
  content : ∀ {m m' : Machine} {args : Args} {query content : String},
    m.Calls (.builtin (.host .noteContent)) args m' → Library.textOf (args.get 1) = .ok query →
    (o.vault m'.heap.calls).content query = .ok content → m.step o.host = { m' with focus := .give [.text content] }
  /-- Where there is no such document, both raise the same error. -/
  failed : ∀ {m m' : Machine} {f : HostFunction} {args : Args} {query : String} {e : BridgeError},
    f = .note ∨ f = .noteContent → m.Calls (.builtin (.host f)) args m' →
    Library.textOf (args.get 1) = .ok query → (o.vault m'.heap.calls).document query = .error e →
    m.step o.host = { m' with
      focus := .raise (.failure m'.heap.failures.size)
      heap := (m'.heap.newFailure (.callback Library.traceback (.host e))).1 }
  /-- So do they for what is no text. -/
  unread : ∀ {m m' : Machine} {f : HostFunction} {args : Args} {e : ScriptError},
    f = .note ∨ f = .noteContent → m.Calls (.builtin (.host f)) args m' →
    Library.textOf (args.get 1) = .error e →
    m.step o.host = { m' with
      focus := .raise (.failure m'.heap.failures.size)
      heap := (m'.heap.newFailure (.callback Library.traceback (.argument 1 e))).1 }
  /-- All files are a table with the descriptions of the listed documents. -/
  allFiles : ∀ {m m' : Machine} {args : Args}, m.Calls (.builtin (.host .allFiles)) args m' →
    ∃ r h, m.step o.host = { m' with focus := .give [.table r], heap := h } ∧
      h.Enumerates r (o.vault m'.heap.calls).allFiles
  /-- The active file is a table with its description, or nil. -/
  activeFile : ∀ {m m' : Machine} {args : Args} {d : Descriptor},
    m.Calls (.builtin (.host .activeFile)) args m' → (o.vault m'.heap.calls).activeFile = some d →
    ∃ r h, m.step o.host = { m' with focus := .give [.table r], heap := h } ∧ h.Describes r d
  inactive : ∀ {m m' : Machine} {args : Args}, m.Calls (.builtin (.host .activeFile)) args m' →
    (o.vault m'.heap.calls).activeFile = none → m.step o.host = { m' with focus := .give [.nil] }

/-- A vault that does not let anyone wait answers at once. -/
theorem runNative_ask {m : Machine} (ready : (o.vault m.heap.calls).waits = false)
    (silent : (o.vault m.heap.calls).notices = []) (q : Query) (f : Lua.Reply → Action (List Value)) (g : Value) :
    m.runNative o.host g (Action.ask q >>= f) =
      m.runNative o.host g (f ((o.vault m.heap.calls).answer q)) := by
  refine Machine.runNative_of_ask ?_ ?_ g
  · cases q with
    | document query => exact (congrArg (· && _) ready).trans (Bool.false_and _)
    | _ => rfl
  · cases q with
    | document query => exact silent
    | allFiles => exact silent
    | _ => rfl

theorem waits_of_hasToWait {calls : List PlatformCall} (waits : o.host.hasToWait calls (.document query) = true) :
    (o.vault calls).waits = true :=
  (Bool.and_eq_true_iff.1 waits).1

/-- A function that asks for a document goes on with what the vault answers, after what is noted, unless it would
have to wait where it cannot. -/
theorem runNative_document {m : Machine} {f : HostFunction} {args : Args} {query : String}
    {answered : Lua.Reply → Action (List Value)}
    (asks : Library.host f args =
      Library.textArgument args >>= fun query => Action.ask (.document query) >>= answered)
    (read : Library.textOf (args.get 1) = .ok query)
    (free : o.host.hasToWait m.heap.calls (.document query) = true → isYieldable m.stack = true) (g : Value) :
    m.runNative o.host g (Library.host f args) =
      runNative o.host { m with heap := m.heap.note (o.vault m.heap.calls).notices } g
        (answered ((o.vault m.heap.calls).answer (.document query))) := by
  have text : (Library.textArgument args).run m.heap = .done query m.heap := by
    rw [Library.textArgument, read]
    rfl
  rw [asks, Machine.runNative_congr (Action.run_bind_of_done text _), Machine.runNative_ask free]
  rfl

/-- Where there is nothing to wait for and nothing to note, the vault answers in the step of the call. -/
theorem step_document {m m' : Machine} (ready : (o.vault m'.heap.calls).waits = false)
    (silent : (o.vault m'.heap.calls).notices = []) {f : HostFunction}
    {args : Args} {query : String} {answered : Lua.Reply → Action (List Value)}
    (asks : Library.host f args =
      Library.textArgument args >>= fun query => Action.ask (.document query) >>= answered)
    (read : Library.textOf (args.get 1) = .ok query) (calls : m.Calls (.builtin (.host f)) args m') :
    m.step o.host =
      m'.runNative o.host (.builtin (.host f)) (answered ((o.vault m'.heap.calls).answer (.document query))) := by
  have free : o.host.hasToWait m'.heap.calls (.document query) = true → isYieldable m'.stack = true := fun waits =>
    absurd (ready.symm.trans (waits_of_hasToWait waits)) Bool.false_ne_true
  rw [Machine.step_of_calls o.host calls, runNative_document asks read free, silent]
  rfl

theorem answersCalls (ready : ∀ calls, (o.vault calls).waits = false)
    (silent : ∀ calls, (o.vault calls).notices = []) : o.AnswersCalls where
  note := by
    intro m m' args query d calls read found
    rw [step_document (ready _) (silent _) rfl read calls, Vault.answer_document found]
    exact ⟨_, _, Machine.runNative_of_done (Action.run_bind_of_done (Library.run_descriptorTable d _) _) _,
      Heap.describes_newTable _ d⟩
  content := by
    intro m m' args query content calls read answered
    obtain ⟨d, found, held⟩ := Vault.content_eq_ok.1 answered
    rw [step_document (ready _) (silent _) rfl read calls, Vault.answer_document found,
      ← Option.getD_some (a := content), ← held]
    exact Machine.runNative_of_done rfl _
  failed := by
    intro m m' f args query e which calls read missing
    obtain rfl | rfl := which
    · rw [step_document (ready _) (silent _) rfl read calls, Vault.answer_missing missing]
      exact Machine.runNative_of_fail rfl _
    · rw [step_document (ready _) (silent _) rfl read calls, Vault.answer_missing missing]
      exact Machine.runNative_of_fail rfl _
  unread := by
    intro m m' f args e which calls unread
    -- An argument that is no text fails before the vault is asked.
    have failed : ∀ {α : Type} (a : String → Action α), (Library.textArgument args >>= a).run m'.heap =
        .fail (.value (.failure m'.heap.failures.size))
          (m'.heap.newFailure (.callback Library.traceback (.argument 1 e))).1 := by
      intro α a
      rw [Library.textArgument, unread]
      rfl
    rw [Machine.step_of_calls o.host calls]
    obtain rfl | rfl := which
    · exact Machine.runNative_of_fail (failed _) _
    · exact Machine.runNative_of_fail (failed _) _
  allFiles := by
    intro m m' args calls
    obtain ⟨r, h, made, enumerates⟩ := Library.run_descriptorTables (o.vault m'.heap.calls).allFiles m'.heap
    rw [Machine.step_of_calls o.host calls, Library.host, runNative_ask (ready _) (silent _)]
    exact ⟨r, h, Machine.runNative_of_done (Action.run_bind_of_done made _) _, enumerates⟩
  activeFile := by
    intro m m' args d calls active
    rw [Machine.step_of_calls o.host calls, Library.host, runNative_ask (ready _) (silent _)]
    simp only [Vault.answer, active]
    exact ⟨_, _, Machine.runNative_of_done (Action.run_bind_of_done (Library.run_descriptorTable d _) _) _,
      Heap.describes_newTable _ d⟩
  inactive := by
    intro m m' args calls inactive
    rw [Machine.step_of_calls o.host calls, Library.host, runNative_ask (ready _) (silent _)]
    simp only [Vault.answer, inactive]
    exact Machine.runNative_of_done rfl _

/-! ## What scripts can see of it -/

/-- Whether the content of a note is what scripts get for its content: wherever one compares the two for a
document that is found, by the global functions of the host, the comparison gives true. -/
def ComparesEqual (o : Outside) : Prop :=
  ∀ {m : Machine} {i g line : Nat} {q : Code} {query : String} {d : Descriptor}, m.readCarried i = .table g →
    m.heap.rawGet g (.text "getNoteContent") = .builtin (.host .noteContent) →
    m.heap.rawGet g (.text "Note") = .builtin (.host .note) → q.isAtom = true →
    Library.textOf (m.readAtom q) = .ok query → (o.vault m.heap.calls).document query = .ok d →
    ∃ h, (step o.host)^[17] { m with focus := .eval (comparison i q line) } =
      { m with focus := .value (.bool true), heap := h }

theorem AnswersCalls.comparesEqual (answers : o.AnswersCalls) : o.ComparesEqual := by
  intro m i g line q query d environment content note atom read found
  obtain ⟨text, held⟩ := Vault.content?_of_document found
  have asked : (o.vault m.heap.calls).content query = .ok text := Vault.content_eq_ok.2 ⟨d, found, held⟩
  -- Each of the two calls takes six steps: four to get there, one of the host, and one to take the result.
  let left : Code := .call (globalCode i "getNoteContent" line) [q] line
  let noted : Code := .call (globalCode i "Note" line) [q] line
  let right : Code := .index noted (.const (.text "content")) line
  let first : Machine := { m with stack := .binaryRight .eq left right line :: m.stack }
  let under : List Frame := .binary .eq (.value (.text text)) left right line :: m.stack
  let second : Machine := { m with stack := .indexKey noted (.const (.text "content")) line :: under }
  have begun : step o.host { m with focus := .eval (Machine.comparison i q line) } =
      { first with focus := .eval left } := rfl
  have fetched : (step o.host)^[6] { first with focus := .eval left } =
      { first with focus := .value (.text text) } := by
    have called := step_callGlobal o.host (m := first) line environment content rfl atom
    have given := answers.content (.code first _ [first.readAtom q] line
      (.code (globalCode i "getNoteContent" line)) .one) read asked
    rw [Function.iterate_add_apply _ 2 4, called, Function.iterate_succ_apply, given]
    rfl
  have turned : (step o.host)^[2] { first with focus := .value (.text text) } =
      { second with focus := .eval noted } := rfl
  obtain ⟨r, h, noted', describes⟩ : ∃ r h, (step o.host)^[6] { second with focus := .eval noted } =
      { second with focus := .value (.table r), heap := h } ∧ h.Describes r d := by
    have called := step_callGlobal o.host (m := second) line environment note rfl atom
    obtain ⟨r, h, given, describes⟩ := answers.note (.code second _ [second.readAtom q] line
      (.code (globalCode i "Note" line)) .one) read found
    refine ⟨r, h, ?_, describes⟩
    rw [Function.iterate_add_apply _ 2 4, called, Function.iterate_succ_apply, given]
    rfl
  have same : h.rawGet r (.text "content") = .text text := by
    rw [describes.fields]
    refine Table.field_text (Library.isRecord_describing d).distinct ?_
    simp [Library.descriptorFields, Library.descriptorEntries, held]
  have accessed : step o.host { second with focus := .value (.table r), heap := h } =
      { m with focus := .value (.text text), stack := under, heap := h } := by
    have indexed : step o.host { second with focus := .value (.table r), heap := h } =
        index { m with focus := .done, stack := under, heap := h } (.table r) (.text "content") noted line := rfl
    rw [indexed]
    simp only [index, same]
    rfl
  have compared : step o.host { m with focus := .value (.text text), stack := under, heap := h } =
      { m with focus := .value (.bool true), heap := h } := by
    have equal : step o.host { m with focus := .value (.text text), stack := under, heap := h } =
        binary { m with focus := .done, heap := h } .eq (.text text) (.text text) left right line := rfl
    rw [equal, Value.text, binary_eq_string, beq_self_eq_true]
    rfl
  refine ⟨h, ?_⟩
  rw [Function.iterate_add_apply _ 16 1, Function.iterate_one, begun, Function.iterate_add_apply _ 10 6, fetched,
    Function.iterate_add_apply _ 8 2, turned, Function.iterate_add_apply _ 2 6, noted',
    Function.iterate_succ_apply, accessed, Function.iterate_one, compared]

/-- What a host error is told as: its own text, without its layer. -/
theorem eq_message_of_isToldAs {traceback message : String} {e : BridgeError}
    (told : (ScriptError.callback traceback (.host e)).IsToldAs message) : message = e.message := by
  cases told with
  | callback inner =>
    cases inner with
    | host => rfl
    | whole whole => cases whole
  | whole whole => cases whole

/-- Whether a document that is missing is told alike: where a script asks for it or for its content, and the
error is the last one that nothing in the script catches, the execution fails with the message about that
document, unless memory is short or errors nest too deeply. -/
def FailsAlike (o : Outside) : Prop :=
  ∀ (config : EngineConfig) (requests : List Engine.Request) (source : String),
    let engine := (Engine.new config).serve requests
    ∀ {s : Session} {p : Proto}, engine.session? = some s →
      Session.compile s.heap.dumped engine.config.sourceName source = .ok p →
      ((s.evaluator p).run o.host Session.patience).hasEnded = true →
      ∀ {k : Nat} {m : Machine} {f : HostFunction} {args : Args} {query : String} {e : BridgeError} {w : Value},
        f = .note ∨ f = .noteContent →
        ((step o.host)^[k] (s.entered o.host p)).Calls (.builtin (.host f)) args m →
        Library.textOf (args.get 1) = .ok query → (o.vault m.heap.calls).document query = .error e →
        s.RaisesLast o.host p (k + 1) w →
        (engine.execute o source).result = some (.error (.execution e.message)) ∨ ∃ w, s.Breaks o.host p w

theorem AnswersCalls.failsAlike (answers : o.AnswersCalls) : o.FailsAlike := by
  intro config requests source engine s p session compiled ended k m f args query e w which calls read missing last
  have equipped : engine.IsEquipped := (Engine.isEquipped_new config).serve requests
  -- The host raises the error in the step of the call, so it is the one that is raised last.
  have raises := answers.failed which calls read missing
  rw [← Function.iterate_succ_apply' (step o.host)] at raises
  obtain rfl : w = .failure m.heap.failures.size := by
    have raised := last.uncaught.2.1
    rw [raises] at raised
    exact (Focus.raise.inj raised).symm
  obtain ⟨w, goes, told⟩ := ((equipped.failureLaw o source) s p session compiled ended).1 _ _ last
  cases goes with
  | broken breaks => exact .inr ⟨w, breaks⟩
  | folded folds =>
    obtain rfl : w = .failure m.heap.failures.size := by
      cases folds with
      | other => rfl
    -- The heap only grows, so in the end the error is still what the host has made of it.
    have kept : (s.afterwards o.host p).heap.failures.getD m.heap.failures.size default =
        .callback Library.traceback (.host e) := by
      rw [Session.entered, ← Function.iterate_add_apply] at raises
      rw [run_eq_iterate] at ended
      have grows := grows_of_ended ended (k + 1 + 6)
      rw [raises, ← run_eq_iterate] at grows
      obtain ⟨more, split⟩ := grows.failures
      have whole : (s.afterwards o.host p).heap.failures.toList = _ := split.symm
      rw [Array.getD_eq_getD_getElem?, ← Array.getElem?_toList, whole]
      simp [Heap.newFailure]
    obtain ⟨message, tells, result⟩ | ⟨untold, -⟩ := told
    · cases tells with
      | failure told =>
        rw [kept] at told
        rw [result, eq_message_of_isToldAs told]
        exact .inl rfl
      | converted other => cases other
      | unconverted other => cases other
    · -- An error of the host is told without asking anyone.
      cases untold with
      | absent other => cases other
      | fails other => cases other

end Outside

end VaultConsole
