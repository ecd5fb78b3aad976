import VaultConsole.Proofs.ChunkNames
import VaultConsole.Proofs.Yaml.Tables

/-!
# Scripts that read YAML

A script that gives back what it reads from a text in YAML hands out the image of the document, whatever has been
executed before (`Engine.serve_execute_parseYaml`): the document becomes tables, and the tables are handed out, with
no trace of the way. Where memory is limited, it may run out.
-/

namespace VaultConsole

open Lua

namespace Lua

/-! ## The script -/

/-- The source of the script, and its code. -/
def parseSource : String := "return app.parseYaml(text)"

def fetchApp : Code := Machine.globalCode 0 "app" 1

def fetchParse : Code := .index fetchApp (.const (.text "parseYaml")) 1

def fetchText : Code := Machine.globalCode 0 "text" 1

def parseSteps : List Step := [.tailCall (.call fetchParse [fetchText] 1)]

variable {host : Host} {s : Session} {name : String} {text : String} {c f h : Nat}

theorem Session.compile_parse (plain : nulPosition? name = none) (dumped : Array Proto) :
    compile dumped name parseSource = .ok (chunkOf (Chunk.display name.toUTF8) 0 parseSteps) := by
  rw [compile_of_isNone plain (by decide +kernel) dumped (by decide +kernel),
    compileAs_of_same plain (by decide +kernel) dumped (p := chunkOf ByteArray.empty 0 parseSteps) (by decide +kernel)]
  rfl

/-- Whether scripts find a text, and the function that reads it, under their names. -/
structure Heap.OffersText (h : Heap) (text : String) : Prop where
  text : h.rawGet h.globals (.text "text") = .text text
  parse : ∃ app, h.rawGet h.globals (.text "app") = .table app ∧
    h.rawGet app (.text "parseYaml") = .builtin (.host .parseYaml)

/-- The machine of the script after its chunk has begun, with what it does next and the frames of the script. -/
def Session.parsing (s : Session) (f h : Nat) (name : ByteArray) (focus : Focus) (frames : List Frame) : Machine :=
  { s.begun f h name 0 parseSteps with
    focus, stack := frames ++ Runner.guarded f h s.heap.closures.size }

/-- The machine when the function is called, and as it waits for the value. -/
def Session.parseCalling (s : Session) (f h : Nat) (name : ByteArray) (text : String) : Machine :=
  s.parsing f h name (.values [.text text])
    [.call (.builtin (.host .parseYaml)) (.code fetchParse) 1 .tail]

def Session.parseWaiting (s : Session) (f h : Nat) (name : ByteArray) : Machine :=
  (s.parsing f h name .done []).waiting 1 (.code fetchParse) .tail

/-- The script fetches the function and the text. -/
theorem Session.step_parsing (host : Host) (offers : s.heap.OffersText text) (f h : Nat) (name : ByteArray) :
    (Machine.step host)^[9] (s.begun f h name 0 parseSteps) = s.parseCalling f h name text := by
  obtain ⟨found, app, library, function⟩ := offers
  let frames : List Frame := [.arguments fetchParse [fetchText] 1 .tail]
  have comes : Machine.step host (s.begun f h name 0 parseSteps) = s.parsing f h name (.eval fetchParse) frames := rfl
  have fetched : (Machine.step host)^[3] (s.parsing f h name (.eval fetchParse) frames) =
      s.parsing f h name (.value (.builtin (.host .parseYaml))) frames :=
    Machine.step_fetchField host (m := s.parsing f h name .done frames)
      (s.readCarried_begun f h name 0 parseSteps) library function rfl
  let called : Frame := .call (.builtin (.host .parseYaml)) (.code fetchParse) 1 .tail
  have next : (Machine.step host)^[2] (s.parsing f h name (.value (.builtin (.host .parseYaml))) frames) =
      s.parsing f h name (.eval fetchText) [.more [] [], called] := rfl
  have fetchedText : Machine.step host (s.parsing f h name (.eval fetchText) [.more [] [], called]) =
      s.parsing f h name (.value (.text text)) [.more [] [], called] :=
    Machine.step_fetch host (m := s.parsing f h name .done [.more [] [], called])
      (s.readCarried_begun f h name 0 parseSteps) found rfl
  have taken : (Machine.step host)^[2] (s.parsing f h name (.value (.text text)) [.more [] [], called]) =
      s.parseCalling f h name text := rfl
  rw [show 9 = 2 + (1 + (2 + (3 + 1))) from rfl]
  simp only [Function.iterate_add_apply, Function.iterate_one]
  rw [comes, fetched, next, fetchedText, taken]

/-- What the script gives back, or fails for. -/
theorem Session.outcome_parse (host : Host) {y : Yaml} (has : s.HasHelper) (offers : s.heap.OffersText text)
    (read : Yaml.read text = .ok y) (plain : y.IsPlain) (name : ByteArray) :
    s.RunsShort host (chunkOf name 0 parseSteps) ∨
      ∃ v, s.outcome host (chunkOf name 0 parseSteps) = .returned [v] ∧
        Library.Renders (s.evaluator (chunkOf name 0 parseSteps)).heap y v
          (s.afterwards host (chunkOf name 0 parseSteps)).heap := by
  obtain ⟨c, f, h, runner, helper⟩ := has
  have grows : s.cleared.Grows (s.evaluator (chunkOf name 0 parseSteps)).heap :=
    s.cleared.grows_newChunk (chunkOf name 0 parseSteps) _
  have fits : 9 + 0 ≤ Machine.maxRoom := by decide
  obtain short | begun := begins_or_short host runner helper name fits parseSteps
  · exact .inl short
  have calls : (s.parseCalling f h name text).Calls (.builtin (.host .parseYaml)) [.text text]
      (s.parseWaiting f h name) := .code (s.parsing f h name .done []) _ _ _ _ _
  have runs : (Machine.step host)^[1 + (9 + 7)] (s.evaluator (chunkOf name 0 parseSteps)) =
      (s.parseWaiting f h name).runNative host (.builtin (.host .parseYaml))
        (Library.host .parseYaml [.text text]) := by
    rw [Function.iterate_add_apply, Function.iterate_add_apply, begun, s.step_parsing host offers,
      Function.iterate_one, Machine.step_of_calls host calls]
  -- The function gives a value that renders the document, or memory is short.
  obtain ⟨_, h', done, v, rfl, renders⟩ | ⟨h', short, limited⟩ :=
    Library.makes_parseYaml read plain (s.parseWaiting f h name).heap
  · have grown := (Library.host .parseYaml [.text text]).grows (s.parseWaiting f h name).heap
    rw [done] at grown
    cases grown with
    | done grown =>
      rw [Machine.runNative_of_done done] at runs
      have passes : ∃ act, (Machine.step host)^[3] { s.parseWaiting f h name with focus := .give [v], heap := h' } =
          ⟨.give [v], act, Runner.guarded f h s.heap.closures.size, h', 1, 9, s.threads.size, s.threads.push .active,
            []⟩ := ⟨_, rfl⟩
      obtain ⟨act, passes⟩ := passes
      rw [← runs, ← Function.iterate_add_apply] at passes
      have early : 3 + (1 + (9 + 7)) + 14 ≤ patience := by decide
      obtain short | ⟨returned, left⟩ :=
        outcome_of_given (helper.of_closures (grows.trans grown).closures) early passes
      · exact .inl short
      · exact .inr ⟨v, returned, left ▸ renders⟩
  · have grown := (Library.host .parseYaml [.text text]).grows (s.parseWaiting f h name).heap
    rw [short] at grown
    cases grown with
    | fail grown =>
      rw [Machine.runNative_of_fault short] at runs
      have raised : (Machine.step host)^[1 + (9 + 7)] (s.evaluator (chunkOf name 0 parseSteps)) =
          ⟨.raise memoryError, default, [.caller (s.begun f h name 0 parseSteps).act 1 (.code fetchParse) .all 9,
            .return] ++ Runner.guarded f h s.heap.closures.size, h', 1, 9, s.threads.size, s.threads.push .active,
            []⟩ := runs
      have early : 1 + (9 + 7) + 18 ≤ patience := by decide
      refine .inl (outcome_of_short (helper.of_closures (grows.trans grown).closures) ?_ early ?_ raised)
      · exact grown.limit ▸ limited
      · simp [Frame.isPassed]

end Lua

namespace Engine

variable {c : EngineConfig} {s : Session} {o : Outside} {source text : String} {p : Proto} {vs : List Value}

/-- An execution that fails for lack of memory says so. -/
theorem execute_of_short (compiled : Session.compile s.heap.dumped c.sourceName source = .ok p)
    (short : s.RunsShort o.host p) :
    (execute ⟨c, some s⟩ o source).result =
      some (.error (.execution (ScriptError.memory memoryMessage).message)) := by
  have told : Session.tellError o.host (s.afterwards o.host p) memoryError =
      (s.afterwards o.host p, some (.memory memoryMessage)) := by
    have known : Library.toldError? (s.afterwards o.host p).heap memoryError = some (.memory memoryMessage) := by
      rw [memoryError, Value.text, Library.toldError?]
      exact if_pos (by decide)
    rw [Session.tellError, show Library.maxRaised = 199 + 1 from rfl, Session.tellErrorWithin, known]
  rw [execute_raised compiled short.2, told]
  rfl

/-- **Documents in YAML.** After any requests, a script that gives back what it reads from a text hands out the
image of the document, if that is plain and nests no deeper than what is handed out. Where memory is limited, it
may run out. -/
theorem serve_execute_parseYaml (config : EngineConfig) (requests : List Request) (o : Outside)
    {s : Session} (session : ((new config).serve requests).session? = some s)
    (name : '\x00' ∉ ((new config).serve requests).config.chunkName.toList) {text : String}
    (offers : s.heap.OffersText text) {y : Yaml} (read : Yaml.read text = .ok y) (plain : y.IsPlain)
    (nests : y.nesting ≤ 32) :
    (((new config).serve requests).execute o parseSource).result = some (.ok (.value y.image)) ∨
      s.heap.limit? ≠ none ∧ (((new config).serve requests).execute o parseSource).result =
        some (.error (.execution (ScriptError.memory memoryMessage).message)) := by
  have has : s.HasHelper := (isEquipped_new config).serve requests s session
  generalize (new config).serve requests = e at session name
  obtain ⟨c, session?⟩ := e
  obtain rfl : session? = some s := session
  have compiled := Session.compile_parse (nulPosition?_sourceName name) s.heap.dumped
  obtain short | ⟨w, returned, renders⟩ :=
    s.outcome_parse o.host has offers read plain (Chunk.display c.sourceName.toUTF8)
  · exact .inr ⟨short.1, execute_of_short compiled short⟩
  · left
    have silent : (s.afterwards o.host (chunkOf (Chunk.display c.sourceName.toUTF8) 0 parseSteps)).heap.printed.lines =
        [] := by
      rw [renders.extends_.printed]
      rfl
    rw [execute_of_silent compiled returned silent]
    exact congrArg (fun x => some (Except.ok (Result.value x))) (renders.pictures _ _ (fun r _ _ => rfl) nests)

/-! ## A text that is stored before -/

/-- A text in YAML, the source of a script that stores it, and the code of that. -/
def storedText : String := "a: [x, \x7bb: ~\x7d, 2]"

def storeSource : String := "text = 'a: [x, \x7bb: ~\x7d, 2]'"

def storeSteps : List Step := [.assign [fetchText] [.const (.text storedText)] 1]

theorem compile_store {name : String} (plain : Session.nulPosition? name = none) (dumped : Array Proto) :
    Session.compile dumped name storeSource = .ok (chunkOf (Chunk.display name.toUTF8) 0 storeSteps) := by
  rw [Session.compile_of_isNone plain (by decide +kernel) dumped (by decide +kernel),
    Session.compileAs_of_same plain (by decide +kernel) dumped (p := chunkOf ByteArray.empty 0 storeSteps)
      (by decide +kernel)]
  rfl

/-- The document of the text. -/
def storedYaml : Yaml :=
  .mapping [(.string "a", .sequence [.string "x", .mapping [(.string "b", .null)], .int 2])]

def isStored : Yaml → Bool
  | .mapping [(.string "a", .sequence [.string "x", .mapping [(.string "b", .null)], .int 2])] => true
  | _ => false

theorem eq_of_isStored {y : Yaml} (stored : isStored y = true) : y = storedYaml := by
  unfold isStored at stored
  split at stored
  · rfl
  · cases stored

theorem read_stored : Yaml.read storedText = .ok storedYaml := by
  have checked : (Yaml.read storedText).toOption.any isStored = true := by decide +kernel
  generalize Yaml.read storedText = result at checked
  cases result with
  | error fault => cases checked
  | ok y => rw [eq_of_isStored checked]

theorem step_assignOne (host : Host) (m : Machine) (t : Target) (w : Value) (line : Nat) :
    Machine.step host { m with focus := .value w, stack := .assignOne t line :: m.stack } =
      Machine.assign { m with focus := .done } t w line := rfl

/-- An entry that is put without calls is there. -/
theorem assign_of_done {m : Machine} {o k : Operand} {code : Code} {w : Value} {line : Nat} {h : Heap}
    (done : (Metamethod.setIndex (m.readOperand o) (m.readOperand k) w).run m.heap = .done () h) :
    m.assign (.index o k code) w line = { m with focus := .done, heap := h } := by
  rw [Machine.assign]
  generalize Metamethod.setIndex (m.readOperand o) (m.readOperand k) w = put at done
  have stored : (Machine.silent put).run m.heap = .done [] h := Action.run_bind_of_done done _
  exact Machine.operate_of_done stored .newindex [code] line .none

/-- The heap of a session with the text. -/
def stored (s : Session) (name : ByteArray) : Heap :=
  (s.evaluator (chunkOf name 0 storeSteps)).heap.rawSet s.heap.globals (.text "text") (.text storedText)

/-- The script stores the text. -/
theorem outcome_store (host : Host) {s : Session} (has : s.HasHelper) (unlimited : s.heap.limit? = none)
    (bare : (s.heap.table s.heap.globals).metatable? = none) (name : ByteArray) :
    s.outcome host (chunkOf name 0 storeSteps) = .returned [] ∧
      (s.afterwards host (chunkOf name 0 storeSteps)).heap = stored s name := by
  obtain ⟨c, f, h, runner, helper⟩ := has
  generalize begins : s.begun f h name 0 storeSteps = m
  have begun : (Machine.step host)^[7] (s.evaluator (chunkOf name 0 storeSteps)) = m :=
    begins ▸ Session.step_evaluator host runner helper unlimited name (by decide) storeSteps
  have heap : m.heap = (s.evaluator (chunkOf name 0 storeSteps)).heap := begins ▸ rfl
  have short : (stored s name).isExhausted = false := by
    have limit : (stored s name).limit? = none := unlimited
    rw [Heap.isExhausted, limit]
  -- The globals have no metatable, so that the text is stored in them as it is.
  have direct : (Metamethod.setIndex (.table s.heap.globals) (.text "text") (.text storedText)).run m.heap =
      .done () (stored s name) := by
    have here : (m.heap.table s.heap.globals).metatable? = none := heap ▸ bare
    have put : (Metamethod.rawSet s.heap.globals (.text "text") (.text storedText)).run m.heap =
        if (stored s name).isExhausted then .fail .memory (stored s name) else .done () (stored s name) := by
      rw [heap]
      rfl
    rw [Metamethod.run_setIndex_of_bare here, put, short]
    rfl
  have operand : Machine.readOperand { m with focus := .done } (.carried 0) = .table s.heap.globals :=
    begins ▸ s.readCarried_begun f h name 0 storeSteps
  let place : Target := .index (.carried 0) (.value (.text "text")) (.carried 0 environmentName)
  have comes : (Machine.step host)^[2] m =
      { m with focus := .value (.text storedText), stack := .assignOne place 1 :: m.stack } := by
    rw [← begins]
    rfl
  have stores : (Machine.step host)^[1 + 2] m = { m with focus := .done, heap := stored s name } := by
    have key : Machine.readOperand { m with focus := .done } (.value (.text "text")) = .text "text" := rfl
    rw [Function.iterate_add_apply, comes, Function.iterate_one, step_assignOne]
    refine assign_of_done ?_
    have kept : Machine.heap { m with focus := .done } = m.heap := rfl
    rw [operand, key, kept, direct]
  -- From here the helper of the session takes the values to the end of the run.
  have given : (Machine.step host)^[1 + (1 + 2 + 7)] (s.evaluator (chunkOf name 0 storeSteps)) =
      ⟨.give [], m.act, Runner.guarded f h s.heap.closures.size, stored s name, 1, 9, s.threads.size,
        s.threads.push .active, []⟩ := by
    rw [Function.iterate_add_apply, Function.iterate_add_apply, begun, stores, Function.iterate_one, ← begins]
    rfl
  have grows : s.cleared.Grows (s.evaluator (chunkOf name 0 storeSteps)).heap :=
    s.cleared.grows_newChunk (chunkOf name 0 storeSteps) _
  have later : (s.evaluator (chunkOf name 0 storeSteps)).heap.Grows (stored s name) :=
    Heap.grows_rawSet _ _ (Table.isKey_string _) _
  have early : 1 + (1 + 2 + 7) + 14 ≤ Session.patience := by decide
  obtain short | ended := Session.outcome_of_given (helper.of_closures (grows.trans later).closures) early given
  · exact absurd unlimited short.1
  · exact ended

/-- A record with a field is one of the tables. -/
theorem lt_size_of_isRecord {h : Heap} {r : Nat} {fields : List (String × Value)}
    (record : (h.table r).IsRecord fields) (filled : fields ≠ []) : r < h.tables.size := by
  by_contra outside
  have bare : h.table r = default := by
    rw [Heap.table, Array.getD_eq_getD_getElem?, Array.getElem?_eq_none (Nat.le_of_not_lt outside)]
    rfl
  have empty := record.entries
  rw [bare] at empty
  exact filled (List.map_eq_nil_iff.1 empty.symm)

/-- A value that is put under a name is there, and those under other names are kept. -/
theorem rawGet_rawSet_text {h : Heap} {r r' : Nat} {fields : List (String × Value)} {a b : String} {v w : Value}
    (record : (h.table r').IsRecord fields) (there : (b, w) ∈ fields) (solid : v.isNil = false) :
    (b ≠ a → (h.rawSet r (.text a) v).rawGet r' (.text b) = w) ∧
      (r' = r → (h.rawSet r (.text a) v).rawGet r' (.text a) = v) := by
  have inside := lt_size_of_isRecord record (List.ne_nil_of_mem there)
  by_cases same : r' = r
  · subst same
    obtain ⟨fields', record', here, kept⟩ := record.exists_setText a solid
    have table : (h.rawSet r' (.text a) v).table r' = (h.table r').setText a v := Heap.table_rawSet inside _ _
    rw [← table] at record'
    exact ⟨fun other => record'.get_text (kept _ there other), fun _ => record'.get_text here⟩
  · refine ⟨fun _ => ?_, fun other => absurd other same⟩
    rw [Heap.rawGet, (Heap.extendsBut_rawSet r h (.text a) v).table r' inside same]
    exact record.get_text there

/-- The session that has stored the text offers it. -/
theorem offersText_stored (name : ByteArray) : (stored (Session.fresh none) name).OffersText storedText := by
  obtain ⟨globals, app, -, record, -, ⟨there, functions⟩, -⟩ := Library.exists_globals none
  have kept : ∀ r, ((Session.fresh none).evaluator (chunkOf name 0 storeSteps)).heap.table r =
      (Library.startHeap none).table r := Session.table_fresh none
  have named : ((Library.startHeap none).table app).IsRecord (Library.named .host Library.appFunctions) := by
    rw [functions]
    exact Table.isRecord_tableOf (by decide) (by decide)
  rw [← kept] at record named
  have listed : ("parseYaml", Value.builtin (.host .parseYaml)) ∈ Library.named .host Library.appFunctions := by
    simp [Library.named, Library.appFunctions]
  exact ⟨(rawGet_rawSet_text record there rfl).2 rfl, app, (rawGet_rawSet_text record there rfl).1 (by decide),
    (rawGet_rawSet_text named listed rfl).1 (by decide)⟩

theorem serve_start_execute (c : EngineConfig) (o : Outside) (source : String) :
    (new c).serve [.start, .execute o source] = (execute (start (new c)).engine o source).engine := rfl

/-- A text that a script has stored before is given back as the image of its document. -/
theorem serve_execute_parseYaml_stored :
    ∃ s, ((new .standard).serve [.start, .execute emptyOutside storeSource]).session? = some s ∧
      '\x00' ∉ ((new .standard).serve [.start, .execute emptyOutside storeSource]).config.chunkName.toList ∧
      s.heap.OffersText storedText ∧ Yaml.read storedText = .ok storedYaml ∧ storedYaml.IsPlain ∧
      storedYaml.nesting ≤ 32 ∧
      (((new .standard).serve [.start, .execute emptyOutside storeSource]).execute emptyOutside parseSource).result =
        some (.ok (.value (.object [("a", .array [.string "x", .object [], .integer 2])]))) := by
  have compiled := compile_store (nulPosition?_sourceName (c := .standard) (by decide)) (Session.fresh none).heap.dumped
  have bare : ((Session.fresh none).heap.table (Session.fresh none).heap.globals).metatable? = none := by
    obtain ⟨globals, -, -, record, -⟩ := Library.exists_globals none
    rw [Session.table_fresh]
    exact record.bare
  obtain ⟨returned, left⟩ := outcome_store emptyOutside.host (Session.hasHelper_fresh none) rfl bare
    (Chunk.display EngineConfig.standard.sourceName.toUTF8)
  generalize same : (Session.fresh none).afterwards emptyOutside.host
    (chunkOf (Chunk.display EngineConfig.standard.sourceName.toUTF8) 0 storeSteps) = s at left
  have served : (new .standard).serve [.start, .execute emptyOutside storeSource] = ⟨.standard, some s⟩ := by
    rw [serve_start_execute, start_unlimited rfl, execute, executeBy, Session.execute,
      Session.evaluate_compiled emptyOutside.host compiled, returned, same]
  have session : ((new .standard).serve [.start, .execute emptyOutside storeSource]).session? = some s := by rw [served]
  have name : '\x00' ∉ ((new .standard).serve [.start, .execute emptyOutside storeSource]).config.chunkName.toList := by
    rw [served]
    exact (by decide : '\x00' ∉ EngineConfig.standard.chunkName.toList)
  have offers : s.heap.OffersText storedText := by
    rw [left]
    exact offersText_stored _
  have plain : storedYaml.IsPlain := by
    refine ⟨⟨_, rfl⟩, ⟨by decide, ?_⟩, trivial⟩
    exact ⟨rfl, trivial, rfl, ⟨⟨_, rfl⟩, trivial, trivial⟩, rfl, trivial, trivial⟩
  have nests : storedYaml.nesting ≤ 32 := by decide
  refine ⟨s, session, name, offers, read_stored, plain, nests, ?_⟩
  obtain result | ⟨limited, -⟩ := serve_execute_parseYaml .standard [.start, .execute emptyOutside storeSource]
    emptyOutside session name offers read_stored plain nests
  · exact result
  · exact absurd (by rw [left]; rfl) limited

end Engine

end VaultConsole
