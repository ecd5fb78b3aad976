import VaultConsole.Config.Basic
import VaultConsole.Proofs.Paths
import VaultConsole.Proofs.Reconfiguration
import VaultConsole.Proofs.Renaming
import VaultConsole.Proofs.Runner.Outcomes

/-!
# The name of chunks in a configuration

A configuration names the chunks of an engine. The name is not looked at when a source is compiled: under every
name without a NUL byte a source compiles if it does under any other one, and to the same function but for the
name (`compile_alike`), so that a source is refused under all of them or under none. A name with a NUL byte is
refused with every source (`execute_nulName`). What a function does can depend on its name where it looks at a
message that has the name in it (`executes_named_not_alike`).
-/

namespace VaultConsole

namespace Lua

/-- Whether two functions differ in the names of their chunks only. -/
def Proto.SameButName (p q : Proto) : Prop := p.named ByteArray.empty = q.named ByteArray.empty

/-- Whether two compilations fail both, or give functions that differ in the names of their chunks only. -/
inductive CompiledAlike {ε : Type} : Except ε Proto → Except ε Proto → Prop where
  | function {p q : Proto} (same : p.SameButName q) : CompiledAlike (.ok p) (.ok q)
  | fault (e e' : ε) : CompiledAlike (.error e) (.error e')

namespace Chunk

theorem compile_alike (level : Nat) (name name' source : ByteArray) :
    CompiledAlike (compile level name source) (compile level name' source) := by
  unfold compile
  cases Block.ofSource level source.toList with
  | error f => exact .fault _ _
  | ok body => exact .function ((Proto.named_ofBlock _ _ body).trans (Proto.named_ofBlock _ _ body).symm)

/-- A function that was written out has the name that it had then. -/
theorem undump_alike (dumped : Array Proto) (name name' bytes : ByteArray) :
    CompiledAlike (undump dumped name bytes) (undump dumped name' bytes) := by
  unfold undump
  cases headerMismatch? bytes with
  | some i =>
    simp only []
    split
    · exact .fault _ _
    · exact .fault _ _
  | none =>
    simp only []
    split
    · exact .fault _ _
    · cases (String.fromUTF8? (bytes.extract dumpHeader.size bytes.size)).bind (·.toNat?) with
      | none => exact .fault _ _
      | some i =>
        simp only []
        cases dumped[i]? with
        | none => exact .fault _ _
        | some p => exact .function rfl

theorem load_alike (level : Nat) (dumped : Array Proto) (name name' bytes mode : ByteArray) :
    CompiledAlike (load level dumped name bytes mode) (load level dumped name' bytes mode) := by
  unfold load
  simp only []
  split
  · split
    · exact undump_alike dumped name name' bytes
    · exact .fault _ _
  · split
    · exact compile_alike level name name' bytes
    · exact .fault _ _

end Chunk

variable {name name' : String}

namespace Session

/-- A text has a NUL byte just if it has the character. -/
theorem nulPosition?_eq_none {s : String} : nulPosition? s = none ↔ '\x00' ∉ s.toList := by
  have bytes : s.toUTF8.toList = FileName.ofChars s.toList := Text.Utf8.toList_toUTF8 s
  rw [nulPosition?, bytes, List.findIdx?_eq_none_iff]
  constructor
  · intro plain member
    have byte : (0 : UInt8) ∈ FileName.ofChars s.toList :=
      List.mem_flatMap.2 ⟨'\x00', member, by decide⟩
    exact absurd (plain 0 byte) (by decide)
  · intro plain b member
    rw [beq_eq_false_iff_ne]
    rintro rfl
    exact FileName.byte_notMem (by decide) (by decide) plain member

theorem compileAs_alike (plain : nulPosition? name = none) (plain' : nulPosition? name' = none)
    (dumped : Array Proto) (source : String) :
    CompiledAlike (compileAs dumped name source) (compileAs dumped name' source) := by
  simp only [compileAs, plain, plain']
  have alike := Chunk.load_alike 0 dumped name.toUTF8 name'.toUTF8 source.toUTF8 "bt".toUTF8
  generalize Chunk.load 0 dumped name.toUTF8 source.toUTF8 "bt".toUTF8 = loaded at alike
  generalize Chunk.load 0 dumped name'.toUTF8 source.toUTF8 "bt".toUTF8 = loaded' at alike
  cases alike with
  | function same => exact .function same
  | fault e e' => exact .fault _ _

/-- A source compiles under every name without a NUL byte if under any, to the same function but for the
name. -/
theorem compile_alike (plain : nulPosition? name = none) (plain' : nulPosition? name' = none)
    (dumped : Array Proto) (source : String) :
    CompiledAlike (compile dumped name source) (compile dumped name' source) := by
  have first := compileAs_alike plain plain' dumped (expressionMark ++ source)
  unfold compile
  generalize compileAs dumped name (expressionMark ++ source) = compiled at first
  generalize compileAs dumped name' (expressionMark ++ source) = compiled' at first
  cases first with
  | function same => exact .function same
  | fault e e' => exact compileAs_alike plain plain' dumped source

/-- No source compiles under a name with a NUL byte. -/
theorem compile_nulName {i : Nat} (found : nulPosition? name = some i) (dumped : Array Proto) (source : String) :
    compile dumped name source = .error (.nulInChunkName i) := by
  simp only [compile, compileAs, found]

end Session

/-! ## Sources that are known -/

namespace Session

variable {source : String}

/-- Whether a source is not one that was written out. -/
def isText (source : String) : Bool := !(source.toUTF8.size > 0 && source.toUTF8.get! 0 == 0x1B)

theorem compileAs_of_isText (plain : nulPosition? name = none) (text : isText source = true)
    (dumped : Array Proto) :
    compileAs dumped name source =
      match Block.ofSource 0 (Text.Utf8.encode source.toList) with
      | .ok body => .ok (Proto.ofBlock (Chunk.display name.toUTF8) body)
      | .error f => .error (.compile (Text.Utf8.lossy (Chunk.faultText (Chunk.display name.toUTF8) f))) := by
  have bytes : source.toUTF8.toList = Text.Utf8.encode source.toList := Text.Utf8.toList_toUTF8 source
  have mode : ("bt".toUTF8.toList.contains 116) = true := by decide +kernel
  rw [isText, Bool.not_eq_true'] at text
  simp only [compileAs, plain, Chunk.load, text, mode, Bool.false_eq_true, if_false, if_true, Chunk.compile, bytes]
  cases Block.ofSource 0 (Text.Utf8.encode source.toList) with
  | ok body => rfl
  | error f => rfl

/-- A source that is known to be a function is that function under every name. -/
theorem compileAs_of_same (plain : nulPosition? name = none) (text : isText source = true)
    (dumped : Array Proto) {p : Proto}
    (same : (Block.ofSource 0 (Text.Utf8.encode source.toList)).toOption.any
      (fun body => (Proto.ofBlock ByteArray.empty body).same p) = true) :
    compileAs dumped name source = .ok (p.named (Chunk.display name.toUTF8)) := by
  rw [compileAs_of_isText plain text]
  generalize Block.ofSource 0 (Text.Utf8.encode source.toList) = parsed at same
  cases parsed with
  | error f => cases same
  | ok body =>
    have unnamed : Proto.ofBlock ByteArray.empty body = p := Proto.eq_of_same _ _ same
    show Except.ok (Proto.ofBlock _ body) = _
    rw [← Proto.named_ofBlock _ ByteArray.empty, unnamed]

/-- A source that is known to be no expression is one of statements. -/
theorem compile_of_isNone (plain : nulPosition? name = none) (text : isText (expressionMark ++ source) = true)
    (dumped : Array Proto)
    (fails : (Block.ofSource 0 (Text.Utf8.encode (expressionMark ++ source).toList)).toOption.isNone = true) :
    compile dumped name source = compileAs dumped name source := by
  rw [compile, compileAs_of_isText plain text]
  generalize Block.ofSource 0 (Text.Utf8.encode (expressionMark ++ source).toList) = parsed at fails
  cases parsed with
  | ok body => cases fails
  | error f => rfl

end Session

/-! ## How a chunk begins -/

/-- Without a limit on memory a chunk begins. -/
theorem Session.step_evaluator (host : Host) {s : Session} {c f h slots : Nat} (runner : s.runner = .closure c)
    (helper : Runner.IsHelper s.heap c f h) (unlimited : s.heap.limit? = none) (name : ByteArray)
    (fits : 9 + slots ≤ Machine.maxRoom) (body : List Step) :
    (Machine.step host)^[7] (s.evaluator (chunkOf name slots body)) = s.begun f h name slots body :=
  (begins_or_short host runner helper name fits body).resolve_left fun short => short.1 unlimited

/-- The values that a chunk gives are those of the evaluation, without a limit on memory. -/
theorem Session.finished_of_given (host : Host) {s : Session} {p : Proto} {c f h k n depth room thread : Nat}
    {heap : Heap} {act : Activation} {threads : Array ThreadState} {vs : List Value}
    (helper : Runner.IsHelper heap c f h) (unlimited : heap.limit? = none)
    (given : (Machine.step host)^[n] (s.evaluator p) =
      ⟨.give vs, act, Runner.guarded f h k, heap, depth, room, thread, threads, []⟩) :
    ∃ act stack, (Machine.step host)^[10 + (3 + (1 + n))] (s.evaluator p) =
      ⟨.finished vs, act, stack, heap, 0, 5, thread, threads, []⟩ := by
  let result : Machine := ⟨.give (.bool true :: vs), act, Runner.awaiting f h k, heap, 0, 5, thread, threads, []⟩
  have passed : Machine.step host ⟨.give vs, act, Runner.guarded f h k, heap, depth, room, thread, threads, []⟩ =
      result := rfl
  obtain ⟨short, -⟩ | awaited : (Runner.IsShort heap ∧ (Machine.step host)^[5] result = _) ∨
      (Machine.step host)^[3] result = _ := Runner.step_awaiting helper (.bool true) vs
  · exact absurd unlimited (Heap.limited_of_exceeds _ short)
  obtain ⟨act, stack, returned⟩ : ∃ act stack, (Machine.step host)^[10] ⟨_, Runner.finishing (.bool true) vs, [],
      heap, 0, 5, thread, threads, []⟩ = ⟨.finished vs, act, stack, heap, 0, 5, thread, threads, []⟩ :=
    Runner.step_finishing_returned host vs
  refine ⟨act, stack, ?_⟩
  rw [Function.iterate_add_apply _ 10, Function.iterate_add_apply _ 3, Function.iterate_add_apply _ 1, given,
    Function.iterate_one, passed, awaited, returned]

/-! ## A source that does nothing -/

/-- The empty source compiles under every name without a NUL byte. -/
theorem Session.compile_idle (plain : nulPosition? name = none) (dumped : Array Proto) :
    compile dumped name "" = .ok (chunkOf (Chunk.display name.toUTF8) 0 [.ret [] 1]) := by
  rw [compile, compileAs_of_same plain (by decide +kernel) dumped (p := chunkOf ByteArray.empty 0 [.ret [] 1])
    (by decide +kernel)]
  rfl

/-- The empty chunk gives nothing back. -/
theorem Session.outcome_idle (host : Host) {s : Session} (has : s.HasHelper) (unlimited : s.heap.limit? = none)
    (name : ByteArray) : s.outcome host (chunkOf name 0 [.ret [] 1]) = .returned [] := by
  obtain ⟨c, f, h, runner, helper⟩ := has
  have begins : (Machine.step host)^[7] (s.evaluator (chunkOf name 0 [.ret [] 1])) =
      s.begun f h name 0 [.ret [] 1] := step_evaluator host runner helper unlimited name (by decide) _
  have grows : s.cleared.Grows (s.evaluator (chunkOf name 0 [.ret [] 1])).heap :=
    s.cleared.grows_newChunk (chunkOf name 0 [.ret [] 1]) _
  have limit : (s.evaluator (chunkOf name 0 [.ret [] 1])).heap.limit? = none := unlimited
  have given : ∃ act, (Machine.step host)^[2] (s.begun f h name 0 [.ret [] 1]) = ⟨.give [], act,
      Runner.guarded f h s.heap.closures.size, (s.evaluator (chunkOf name 0 [.ret [] 1])).heap, 1, 9,
      s.threads.size, s.threads.push .active, []⟩ := ⟨_, rfl⟩
  obtain ⟨act, given⟩ := given
  rw [← begins, ← Function.iterate_add_apply] at given
  obtain ⟨act, stack, finished⟩ := finished_of_given host (helper.of_closures grows.closures) limit given
  have ended : ((Machine.step host)^[10 + (3 + (1 + (2 + 7)))]
      (s.evaluator (chunkOf name 0 [.ret [] 1]))).hasEnded = true := by
    rw [finished]
    rfl
  have long : 10 + (3 + (1 + (2 + 7))) ≤ patience := by decide
  rw [outcome, Machine.run_eq_of_ended long ended, finished]
  rfl

end Lua

namespace Engine

open Lua

/-! ## Engines -/

/-- The name without a NUL byte goes into the name of the source. -/
theorem nulPosition?_sourceName {c : EngineConfig} (plain : '\x00' ∉ c.chunkName.toList) :
    Session.nulPosition? c.sourceName = none := by
  rw [Session.nulPosition?_eq_none, EngineConfig.sourceName, String.toList_append, List.mem_append, not_or]
  exact ⟨by decide, plain⟩

/-- An engine without a limit on memory is initialized with a new session. -/
theorem start_unlimited {c : EngineConfig} (unlimited : c.memoryLimit? = none) :
    (start (new c)).engine = ⟨c, some (Session.fresh none)⟩ := by
  obtain ⟨limited, -⟩ | made := Session.start_cases c.memoryLimit?
  · exact absurd unlimited limited
  · rw [unlimited] at made
    rw [start, new, startBy_fresh (by rw [unlimited, made])]

/-- How an engine with a configuration goes like one with another configuration, whatever they have executed
before. -/
structure RunsLike (c c' : EngineConfig) : Prop where
  /-- Both are initialized, and with the same session. -/
  started : ∃ s, (start (new c)).engine.session? = some s ∧ (start (new c')).engine.session? = some s
  /-- A source compiles with both or with none, to the same function but for the name. -/
  compiles : ∀ dumped source,
    CompiledAlike (Session.compile dumped c.sourceName source) (Session.compile dumped c'.sourceName source)
  /-- An execution fails for its source with both or with none. -/
  refuses : ∀ s o source,
    (∃ cause, Session.compile s.heap.dumped c.sourceName source = .error cause ∧
      (execute ⟨c, some s⟩ o source).result = some (.error (.execution cause.message))) ↔
    ∃ cause, Session.compile s.heap.dumped c'.sourceName source = .error cause ∧
      (execute ⟨c', some s⟩ o source).result = some (.error (.execution cause.message))
  /-- Not every execution fails. -/
  succeeds : ∀ o, ∃ source r, ((start (new c)).engine.execute o source).result = some (.ok r)

/-- An execution whose evaluation gives values has a result. -/
theorem execute_returned {c : EngineConfig} {s : Session} {o : Outside} {source : String} {p : Proto}
    {vs : List Value} (compiled : Session.compile s.heap.dumped c.sourceName source = .ok p)
    (returned : s.outcome o.host p = .returned vs) :
    ∃ r, (execute ⟨c, some s⟩ o source).result = some (.ok r) := by
  have law := execute_lawful ⟨c, some s⟩ o source
  simp only [ExecutionLaw, compiled, returned] at law
  obtain ⟨output, value⟩ := law
  cases blank : Text.allBlank (textOfLines (s.linesOf o.host p)) with
  | false => exact ⟨_, output blank⟩
  | true => exact ⟨_, value blank⟩

/-- An execution of the empty source has a result. -/
theorem execute_idle {c : EngineConfig} (plain : '\x00' ∉ c.chunkName.toList) {s : Session} (has : s.HasHelper)
    (unlimited : s.heap.limit? = none) (o : Outside) :
    ∃ r, (execute ⟨c, some s⟩ o "").result = some (.ok r) :=
  execute_returned (Session.compile_idle (nulPosition?_sourceName plain) _)
    (Session.outcome_idle o.host has unlimited _)

/-- Where compilations are alike, an execution that fails for its source does so with both names. -/
theorem refuses_of_alike {c c' : EngineConfig} {s : Session} {source : String}
    (alike : CompiledAlike (Session.compile s.heap.dumped c.sourceName source)
      (Session.compile s.heap.dumped c'.sourceName source)) (o : Outside)
    (refused : ∃ cause, Session.compile s.heap.dumped c.sourceName source = .error cause) :
    ∃ cause, Session.compile s.heap.dumped c'.sourceName source = .error cause ∧
      (execute ⟨c', some s⟩ o source).result = some (.error (.execution cause.message)) := by
  obtain ⟨cause, failed⟩ := refused
  rw [failed] at alike
  generalize compiled : Session.compile s.heap.dumped c'.sourceName source = result at alike
  cases alike with
  | fault _ cause' => exact ⟨cause', rfl, World.execute_uncompiled compiled o⟩

/-- **Names of chunks in configurations.** An engine without a limit on memory runs scripts under every name
without a NUL byte as it does under the standard one: only what the scripts do with the name may differ. -/
theorem runsLike_standard {c : EngineConfig} (unlimited : c.memoryLimit? = none)
    (plain : '\x00' ∉ c.chunkName.toList) : RunsLike c .standard := by
  have standard : '\x00' ∉ EngineConfig.standard.chunkName.toList := by decide
  have alike : ∀ dumped source, CompiledAlike (Session.compile dumped c.sourceName source)
      (Session.compile dumped EngineConfig.standard.sourceName source) :=
    Session.compile_alike (nulPosition?_sourceName plain) (nulPosition?_sourceName standard)
  have alike' : ∀ dumped source, CompiledAlike
      (Session.compile dumped EngineConfig.standard.sourceName source) (Session.compile dumped c.sourceName source) :=
    Session.compile_alike (nulPosition?_sourceName standard) (nulPosition?_sourceName plain)
  constructor
  · rw [start_unlimited unlimited, start_unlimited (c := .standard) rfl]
    exact ⟨_, rfl, rfl⟩
  · exact alike
  · intro s o source
    constructor
    · rintro ⟨cause, failed, -⟩
      exact refuses_of_alike (alike _ _) o ⟨cause, failed⟩
    · rintro ⟨cause, failed, -⟩
      exact refuses_of_alike (alike' _ _) o ⟨cause, failed⟩
  · intro o
    rw [start_unlimited unlimited]
    exact ⟨"", execute_idle plain (Session.hasHelper_fresh none) rfl o⟩

theorem runsLike_standard_other :
    EngineConfig.validate ⟨"other", none⟩ = .ok () ∧ RunsLike ⟨"other", none⟩ .standard :=
  ⟨by decide, runsLike_standard rfl (by decide)⟩

/-- Under a name with a NUL byte every execution fails. -/
theorem execute_nulName {c : EngineConfig} (nul : '\x00' ∈ c.chunkName.toList) (s : Session) (o : Outside)
    (source : String) :
    ∃ message, (execute ⟨c, some s⟩ o source).result = some (.error (.execution message)) := by
  have found : Session.nulPosition? c.sourceName ≠ none := by
    rw [ne_eq, Session.nulPosition?_eq_none, EngineConfig.sourceName, String.toList_append, List.mem_append, not_not]
    exact .inr nul
  obtain ⟨i, found⟩ := Option.ne_none_iff_exists'.1 found
  exact ⟨_, World.execute_uncompiled (Session.compile_nulName found _ source) o⟩

/-! ## A script that looks at the name

A message tells where an error was raised, with the name of the chunk. A script that compares it goes another
way under another name. -/

/-- The source of a script that succeeds just if the message of its error is as long as under the standard
name, and its code. -/
def measuringSource : String := "local _, e = pcall(function() return nil + 1 end) return #e == 55 or nil + 1"

def faulty : Code := .binary .add (.const .nil) (.const (.int 1)) 1

def faultyFunction (name : ByteArray) : Code := .function (.mk name [] false 0 0 [] [.ret [faulty] 1])

def fetchPcall : Code := .index (.carried 0 "_ENV".toUTF8) (.const (.text "pcall")) 1

def measuring : Code :=
  .or (.binary .eq (.unary .len (.local (.slot 1) "e".toUTF8) 1) (.const (.int 55)) 1) faulty

def measuringSteps (name : ByteArray) : List Step :=
  [.locals [.slot 0, .slot 1] [.call fetchPcall [faultyFunction name] 1], .ret [measuring] 1]

def measuringChunk (name : ByteArray) : Proto := chunkOf name 2 (measuringSteps name)

theorem compile_measuring {name : String} (plain : Session.nulPosition? name = none) (dumped : Array Proto) :
    Session.compile dumped name measuringSource = .ok (measuringChunk (Chunk.display name.toUTF8)) := by
  rw [Session.compile_of_isNone plain (by decide +kernel) dumped (by decide +kernel),
    Session.compileAs_of_same plain (by decide +kernel) dumped (p := measuringChunk ByteArray.empty)
      (by decide +kernel)]
  rfl

/-- The machine that runs the script in a new session, when it has fetched the function that catches errors. -/
def measuringCall (name : ByteArray) : Machine :=
  { (Session.fresh none).begun 2 1 name 2 (measuringSteps name) with
    focus := .value (.builtin (.base .pcall))
    stack := .arguments fetchPcall [faultyFunction name] 1 .all :: .more [] [] :: .declare [.slot 0, .slot 1] ::
      .block [] [.ret [measuring] 1] :: Runner.guarded 2 1 4 }

theorem step_measuring (host : Host) (name : ByteArray) :
    (Machine.step host)^[11] ((Session.fresh none).evaluator (measuringChunk name)) = measuringCall name := by
  have begins : (Machine.step host)^[7] ((Session.fresh none).evaluator (measuringChunk name)) =
      (Session.fresh none).begun 2 1 name 2 (measuringSteps name) :=
    Session.step_evaluator host rfl (Runner.isHelper_equipped (Session.startChunk none)) rfl name (by decide) _
  have comes : (Machine.step host)^[3] ((Session.fresh none).begun 2 1 name 2 (measuringSteps name)) =
      { measuringCall name with focus := .eval fetchPcall } := rfl
  have found : (((Session.startChunk none).table 0).get (.text "pcall")) = .builtin (.base .pcall) := by
    obtain ⟨globals, _, _, holds, ⟨base, -⟩, -⟩ := Library.exists_globals none
    rw [Session.table_startChunk]
    exact holds.get_text (base (by simp [Library.named, Library.baseFunctions]))
  rw [Function.iterate_succ_apply', Function.iterate_add_apply _ 3 7, begins, comes]
  exact Machine.step_global host rfl rfl found rfl

/-- How the script ends, if it has ended: with values or with a string as its error. -/
def succeeds? : Focus → Option Bool
  | .finished _ => some true
  | .failed (.string _) => some false
  | _ => none

theorem succeeds_measuring :
    succeeds? ((Machine.step emptyOutside.host)^[80] (measuringCall "console".toUTF8)).focus = some true ∧
      succeeds? ((Machine.step emptyOutside.host)^[80] (measuringCall "other".toUTF8)).focus = some false :=
  ⟨by decide +kernel, by decide +kernel⟩

theorem outcome_measuring {name : ByteArray} {succeeds : Bool}
    (ends : succeeds? ((Machine.step emptyOutside.host)^[80] (measuringCall name)).focus = some succeeds) :
    (succeeds = true ∧
      ∃ vs, (Session.fresh none).outcome emptyOutside.host (measuringChunk name) = .returned vs) ∨
    succeeds = false ∧
      ∃ b, (Session.fresh none).outcome emptyOutside.host (measuringChunk name) = .raised (.string b) := by
  rw [← step_measuring emptyOutside.host, ← Function.iterate_add_apply] at ends
  have long : 80 + 11 ≤ Session.patience := by decide
  have run : ((Machine.step emptyOutside.host)^[80 + 11]
      ((Session.fresh none).evaluator (measuringChunk name))).hasEnded = true →
      (Session.fresh none).outcome emptyOutside.host (measuringChunk name) = Session.ending
        ((Machine.step emptyOutside.host)^[80 + 11] ((Session.fresh none).evaluator (measuringChunk name))) := by
    intro ended
    rw [Session.outcome, Machine.run_eq_of_ended long ended]
  generalize (Machine.step emptyOutside.host)^[80 + 11] ((Session.fresh none).evaluator (measuringChunk name)) = m
    at ends run
  obtain ⟨focus, act, stack, heap, depth, room, thread, threads, resumers⟩ := m
  cases focus with
  | finished vs => exact .inl ⟨(Option.some.inj ends).symm, vs, run rfl⟩
  | failed v =>
    cases v with
    | string b => exact .inr ⟨(Option.some.inj ends).symm, b, run rfl⟩
    | _ => cases ends
  | _ => cases ends

/-- Whether the script fails as a new engine executes it. -/
theorem execute_measuring {c : EngineConfig} (plain : '\x00' ∉ c.chunkName.toList) {succeeds : Bool}
    (ends : succeeds? ((Machine.step emptyOutside.host)^[80]
      (measuringCall (Chunk.display c.sourceName.toUTF8))).focus = some succeeds) :
    if succeeds then ∃ r, (execute ⟨c, some (Session.fresh none)⟩ emptyOutside measuringSource).result = some (.ok r)
    else ∃ message, (execute ⟨c, some (Session.fresh none)⟩ emptyOutside measuringSource).result =
      some (.error (.execution message)) := by
  have compiled : Session.compile (Session.fresh none).heap.dumped c.sourceName measuringSource =
      .ok (measuringChunk (Chunk.display c.sourceName.toUTF8)) :=
    compile_measuring (nulPosition?_sourceName plain) _
  obtain ⟨rfl, vs, returned⟩ | ⟨rfl, b, raised⟩ := outcome_measuring ends
  · exact execute_returned compiled returned
  · obtain ⟨told, same⟩ := Session.exists_told_string emptyOutside.host
      ((Session.fresh none).afterwards emptyOutside.host (measuringChunk _)) b
    exact ⟨told.message, by rw [execute_raised compiled raised, same]; rfl⟩

/-- Names that are valid make executions fail that succeed under the standard name: a script that looks at the
name in a message does under another one, and under a name with a NUL byte every script does. -/
theorem executes_named_not_alike :
    let result (name : String) (source : String) :=
      ((start (new ⟨name, none⟩)).engine.execute emptyOutside source).result
    (EngineConfig.validate ⟨"other", none⟩ = .ok () ∧ (∃ r, result "console" measuringSource = some (.ok r)) ∧
      ∃ message, result "other" measuringSource = some (.error (.execution message))) ∧
    EngineConfig.validate ⟨"a\x00b", none⟩ = .ok () ∧ (∃ r, result "console" "" = some (.ok r)) ∧
      ∀ source, ∃ message, result "a\x00b" source = some (.error (.execution message)) := by
  intro result
  have engine : ∀ name, (start (new ⟨name, none⟩)).engine = ⟨⟨name, none⟩, some (Session.fresh none)⟩ :=
    fun name => start_unlimited rfl
  have shown : Chunk.display (EngineConfig.sourceName ⟨"console", none⟩).toUTF8 = "console".toUTF8 := by
    decide +kernel
  have shown' : Chunk.display (EngineConfig.sourceName ⟨"other", none⟩).toUTF8 = "other".toUTF8 := by
    decide +kernel
  obtain ⟨console, other⟩ := succeeds_measuring
  rw [← shown] at console
  rw [← shown'] at other
  simp only [result, engine]
  exact ⟨⟨by decide, execute_measuring (by decide) console, execute_measuring (by decide) other⟩, by decide,
    execute_idle (by decide) (Session.hasHelper_fresh none) rfl emptyOutside,
    fun source => execute_nulName (by decide) _ _ _⟩

end Engine

end VaultConsole
