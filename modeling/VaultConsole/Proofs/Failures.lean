import VaultConsole.Proofs.Runner.Start
import VaultConsole.Vault.Memory

/-!
# The messages of failed executions

Every session that an engine has after requests has its helper, whatever scripts have assigned to globals:
it is made before any script runs, and evaluations only add to what a session has. So a failed execution is
told as `Engine.FailureLaw` says: by what the handler makes of the last value that was raised and that nothing
in the script has caught.
-/

namespace VaultConsole

/-- A source is compiled to the function that it is compared with. -/
theorem Lua.Session.compile_of_same {dumped : Array Proto} {name source : String} {p : Proto}
    (same : (compile dumped name source).toOption.any (fun q => q.same p) = true) :
    compile dumped name source = .ok p := by
  generalize compile dumped name source = compiled at same
  cases compiled with
  | error message => cases same
  | ok q => exact congrArg _ (Proto.eq_of_same q p same)

namespace Engine

open Lua

/-- What the host of an engine asks of it. -/
inductive Request where
  | start
  | reset
  | cleanup
  | execute (o : Outside) (source : String)
  | banner (o : Outside)
  | setConfig (config : EngineConfig)

/-- The operation that a request is. -/
def Request.operation : Request → Operation
  | .start => .start Session.start
  | .reset => .reset Session.start
  | .cleanup => .cleanup
  | .execute o source => .execute (fun name s => s.execute o.host name source) source
  | .banner o => .banner fun s => s.banner o.host
  | .setConfig config => .setConfig config

/-- The engine after requests in order. -/
def serve (e : Engine) (requests : List Request) : Engine := e.performAll (requests.map Request.operation)

/-! ## Sessions of an engine -/

/-- A session that an engine has, has its helper. -/
def IsEquipped (e : Engine) : Prop := ∀ s, e.session? = some s → s.HasHelper

theorem isEquipped_new (config : EngineConfig) : (new config).IsEquipped := fun _ has => nomatch has

/-- A request that makes a session makes a new one. -/
theorem Request.makes_start {request : Request} {ready : Bool}
    {make : Option Nat → Except ScriptError Session}
    (makes : request.operation.makes? ready = some make) : make = Session.start := by
  cases request with
  | start =>
    cases ready with
    | true => cases makes
    | false => exact (Option.some.inj makes).symm
  | reset => exact (Option.some.inj makes).symm
  | _ => cases makes

/-- A session goes on under every request that keeps it. -/
theorem Request.continues_evolve (request : Request) (s : Session) (name : String) :
    s.Continues (request.operation.evolve s name) := by
  cases request with
  | execute o source => exact Session.continues_execute o.host s name source
  | banner o => exact Session.continues_banner o.host s
  | _ => exact .refl s

/-- What every new session has and every session keeps, the session of an engine has after a request. -/
theorem session_perform {P : Session → Prop} (fresh : ∀ limit?, P (Session.fresh limit?))
    (kept : ∀ {s s' : Session}, P s → s.Continues s' → P s') {e : Engine}
    (before : ∀ s, e.session? = some s → P s) (request : Request) :
    ∀ s, (e.perform request.operation).1.session? = some s → P s := by
  intro s has
  obtain ⟨make, makes, made⟩ | ⟨-, s', had, rfl⟩ := perform_session has
  · obtain rfl := Request.makes_start makes
    rw [Session.eq_fresh_of_start made]
    exact fresh _
  · exact kept (before s' had) (request.continues_evolve s' _)

theorem session_serve {P : Session → Prop} (fresh : ∀ limit?, P (Session.fresh limit?))
    (kept : ∀ {s s' : Session}, P s → s.Continues s' → P s') {e : Engine}
    (before : ∀ s, e.session? = some s → P s) (requests : List Request) :
    ∀ s, (e.serve requests).session? = some s → P s := by
  induction requests generalizing e with
  | nil => exact before
  | cons request requests ih => exact ih (session_perform fresh kept before request)

theorem IsEquipped.serve {e : Engine} (equipped : e.IsEquipped) (requests : List Request) :
    (e.serve requests).IsEquipped :=
  session_serve Session.hasHelper_fresh Session.HasHelper.continues equipped requests

/-! ## Failed executions -/

/-- How an evaluation that has ended is told where it fails. A value is the last one that the script raises
and does not catch: then the execution fails with the message of what goes on in its place, unless telling that does
not come back. What goes on is what the handler makes of the value, unless memory is short or errors nest too deeply.
And if an evaluation fails for other reasons than these, then there is such a value. -/
def FailureLaw (e : Engine) (o : Outside) (source : String) : Prop :=
  ∀ s p, e.session? = some s → Session.compile s.heap.dumped e.config.sourceName source = .ok p →
    ((s.evaluator p).run o.host Session.patience).hasEnded = true →
    (∀ i v, s.RaisesLast o.host p i v → ∃ w, s.GoesOnAs o.host p i v w ∧
      ((∃ message, (s.afterwards o.host p).Tells o.host w message ∧
          (e.execute o source).result = some (.error (.execution message))) ∨
        (s.afterwards o.host p).IsUntold o.host w ∧ (e.execute o source).result = none)) ∧
    ∀ w, s.outcome o.host p = .raised w →
      s.Breaks o.host p w ∨ ∃ i v, s.RaisesLast o.host p i v

/-- An execution whose evaluation raises a value fails with the message of that, if telling it comes back. -/
theorem execute_raised {config : EngineConfig} {s : Session} {o : Outside} {source : String} {p : Proto} {w : Value}
    (compiled : Session.compile s.heap.dumped config.sourceName source = .ok p)
    (raised : s.outcome o.host p = .raised w) :
    (execute ⟨config, some s⟩ o source).result =
      ((s.afterwards o.host p).tellError o.host w).2.map fun told => .error (.execution told.message) := by
  have answer : (execute ⟨config, some s⟩ o source).result =
      (s.execute o.host config.sourceName source).2.map (·.mapError EngineError.ofScript) :=
    (executeBy_ready config s _ source).2
  rw [answer, Session.execute, Session.evaluate_compiled o.host compiled, raised]
  simp only []
  cases ((s.afterwards o.host p).tellError o.host w).2 with
  | none => rfl
  | some told => rfl

theorem IsEquipped.failureLaw {e : Engine} (equipped : e.IsEquipped) (o : Outside) (source : String) :
    e.FailureLaw o source := by
  obtain ⟨config, session?⟩ := e
  intro s p session compiled ended
  obtain rfl : session? = some s := session
  obtain ⟨fails, raises⟩ := Session.outcome_goesOnAs o.host (equipped s rfl) p ended
  refine ⟨fun i v last => ?_, raises⟩
  obtain ⟨w, goes, raised⟩ := fails i v last
  have result := execute_raised compiled raised
  refine ⟨w, goes, ?_⟩
  obtain ⟨told, same, tells⟩ | ⟨untold, never⟩ := Session.tells_or_isUntold o.host (s.afterwards o.host p) w
  · rw [same] at result
    exact .inl ⟨_, tells, result⟩
  · rw [untold] at result
    exact .inr ⟨never, result⟩

/-- After any requests, failed executions are told as the law says, and an execution leaves the engine ready
if it was. -/
theorem serve_failure_lawful (config : EngineConfig) (requests : List Request) (o : Outside)
    (source : String) :
    let e := (new config).serve requests
    e.FailureLaw o source ∧ (e.execute o source).engine.isReady = e.isReady := by
  intro e
  refine ⟨((isEquipped_new config).serve requests).failureLaw o source, ?_⟩
  exact (e.perform_lawful (.execute (fun name s => s.execute o.host name source) source)).1

/-! ## A text with a NUL byte

A text that is raised is told up to its first NUL byte. The execution of one source shows it. -/

/-- A text with a NUL byte in it, a source that raises it, and the chunk of that source. -/
def nulText : ByteArray := ⟨#[97, 0, 98]⟩

def nulSource : String := "error(\"a\\0b\", 0)"

def fetchError : Code := .index (.carried 0 "_ENV".toUTF8) (.const (.text "error")) 1

def nulChunk : Proto :=
  .mk "console".toUTF8 [] true 0 0 [(.carried 0, "_ENV".toUTF8)]
    [.tailCall (.call fetchError [.const (.string nulText), .const (.int 0)] 1)]

theorem compile_nul : Session.compile #[] EngineConfig.standard.sourceName nulSource = .ok nulChunk :=
  Session.compile_of_same (by decide +kernel)

/-- The machine that runs the chunk, when it has fetched the function that raises errors. -/
def nulRaising (heap : Heap) : Machine :=
  ⟨.value (.builtin (.base .error)), ⟨"console".toUTF8, #[.cell 1], #[], #[], []⟩,
    .arguments fetchError [.const (.string nulText), .const (.int 0)] 1 .tail :: Runner.guarded 2 1 4,
    heap, 1, 9, 1, #[.dead, .active], []⟩

theorem step_nulRaising (host : Host) {heap : Heap} (unlimited : heap.limit? = none)
    (chunk : heap.closures[4]? = some ⟨nulChunk, #[.cell 1]⟩) (globals : heap.cell 1 = .table 0)
    (found : (heap.table 0).get (.text "error") = .builtin (.base .error)) :
    (Machine.step host)^[3] (Runner.entering heap 2 1 4 1 #[.dead, .active]) = nulRaising heap := by
  have first : Machine.step host (Runner.entering heap 2 1 4 1 #[.dead, .active]) = Machine.enterClosure
      ⟨.done, default, Runner.guarded 2 1 4, heap, 1, 5, 1, #[.dead, .active], []⟩ 4 [] := rfl
  have fits : 5 + 0 + 0 + 4 ≤ Machine.maxRoom := by decide
  obtain ⟨exceeds, -⟩ | goes := Machine.enterClosure_cases
    ⟨.done, default, Runner.guarded 2 1 4, heap, 1, 5, 1, #[.dead, .active], []⟩ chunk [] fits
  · exact absurd unlimited (heap.limited_of_exceeds exceeds)
  · have second : (Machine.step host)^[2] (Runner.entering heap 2 1 4 1 #[.dead, .active]) =
        { nulRaising heap with focus := .eval fetchError } := by
      rw [Function.iterate_succ_apply, first, goes]
      rfl
    rw [Function.iterate_succ_apply', second]
    exact Machine.step_global host rfl globals found rfl

/-- The heap with which the chunk begins in a new session. -/
def nulHeap : Heap := ((Session.fresh none).evaluator nulChunk).heap

theorem entered_nul (host : Host) :
    (Machine.step host)^[3] ((Session.fresh none).entered host nulChunk) = nulRaising nulHeap := by
  have grows : (Session.fresh none).cleared.Grows nulHeap :=
    (Session.fresh none).cleared.grows_newChunk nulChunk _
  have helper : Runner.IsHelper nulHeap 3 2 1 :=
    (Runner.isHelper_equipped (Session.startChunk none)).of_closures grows.closures
  have held : (("error", .builtin (.base .error)) : String × Value) ∈ Runner.held := by
    simp [Runner.held]
  obtain ⟨short, -⟩ | calls := Runner.step_calling host helper
    (m := (Session.fresh none).evaluator nulChunk) rfl
  · exact absurd rfl (nulHeap.limited_of_exceeds short)
  · have entered : (Session.fresh none).entered host nulChunk =
        Runner.entering nulHeap 2 1 4 1 #[.dead, .active] := calls
    rw [entered]
    exact step_nulRaising host rfl rfl rfl (Session.get_held none _ held).1

/-- The value that is raised, and the one with which a machine has failed. -/
def raised? : Focus → Option Value
  | .raise v => some v
  | _ => none

def failed? : Focus → Option Value
  | .failed v => some v
  | _ => none

theorem eq_failed {focus : Focus} {v : Value} (h : failed? focus = some v) : focus = .failed v := by
  cases focus with
  | failed w => rw [Option.some.inj h]
  | _ => cases h

/-- A vault without documents, where nothing else comes back. -/
def emptyOutside : Outside := .around (MemoryVault.empty "").view .still

/-- The machine fails with the text. No other value is raised on the way, and none before the chunk has fetched the
function that raises errors. -/
theorem course_nul :
    failed? ((Machine.step emptyOutside.host)^[60] (nulRaising nulHeap)).focus = some (.string nulText) ∧
      (∀ k < 60, ∀ v ∈ raised? ((Machine.step emptyOutside.host)^[k] (nulRaising nulHeap)).focus,
        v = .string nulText) ∧
      ∀ k < 3, raised? ((Machine.step emptyOutside.host)^[k]
        ((Session.fresh none).entered emptyOutside.host nulChunk)).focus = none := by
  decide +kernel

theorem outcome_nul :
    (((Session.fresh none).evaluator nulChunk).run emptyOutside.host Session.patience).hasEnded = true ∧
      (Session.fresh none).outcome emptyOutside.host nulChunk = .raised (.string nulText) := by
  have failed : ((Machine.step emptyOutside.host)^[60 + (3 + 6)]
      ((Session.fresh none).evaluator nulChunk)).focus = .failed (.string nulText) := by
    rw [Function.iterate_add_apply, Function.iterate_add_apply]
    have fetched := entered_nul emptyOutside.host
    rw [Session.entered] at fetched
    rw [fetched]
    exact eq_failed course_nul.1
  have ended : ((Machine.step emptyOutside.host)^[60 + (3 + 6)]
      ((Session.fresh none).evaluator nulChunk)).hasEnded = true := by
    rw [Machine.hasEnded, failed]
  have long : 60 + (3 + 6) ≤ Session.patience := by decide
  rw [Session.outcome, Machine.run_eq_of_ended long ended]
  exact ⟨ended, Session.ending_of_failed failed⟩

/-- No other value is raised in the chunk. -/
theorem raisesLast_nul {i : Nat} {v : Value}
    (raises : (Session.fresh none).RaisesLast emptyOutside.host nulChunk i v) : v = .string nulText := by
  have raised : raised? ((Machine.step emptyOutside.host)^[i] ((Session.fresh none).entered emptyOutside.host
      nulChunk)).focus = some v := by
    rw [raises.uncaught.2.1]
    rfl
  obtain early | later := Nat.lt_or_ge i 3
  · rw [course_nul.2.2 i early] at raised
    cases raised
  · obtain ⟨k, rfl⟩ := Nat.exists_eq_add_of_le' later
    rw [Function.iterate_add_apply, entered_nul] at raised
    obtain inside | beyond := Nat.lt_or_ge k 60
    · exact course_nul.2.1 k inside v raised
    · obtain ⟨more, rfl⟩ := Nat.exists_eq_add_of_le' beyond
      have failed := eq_failed course_nul.1
      have ended : ((Machine.step emptyOutside.host)^[60] (nulRaising nulHeap)).hasEnded = true := by
        rw [Machine.hasEnded, failed]
      rw [Function.iterate_add_apply, Function.iterate_fixed (Machine.step_ended _ ended) more,
        failed] at raised
      cases raised

/-- The text is told up to its NUL byte. -/
theorem result_nul : (execute ⟨.standard, some (Session.fresh none)⟩ emptyOutside nulSource).result =
    some (.error (.execution "a")) := by
  have told : Library.toldError? ((Session.fresh none).afterwards emptyOutside.host nulChunk).heap
      (.string nulText) = some (.runtime (Text.Utf8.lossy (beforeNul nulText.toList).toByteArray ++
        "\n" ++ Library.traceback)) := by
    have other : ¬ (Value.string nulText == memoryError) = true := by decide
    rw [Library.toldError?, if_neg other]
  rw [execute_raised compile_nul outcome_nul.2]
  have first : Session.tellError emptyOutside.host ((Session.fresh none).afterwards emptyOutside.host nulChunk)
      (.string nulText) = Session.tellErrorWithin emptyOutside.host (199 + 1)
        ((Session.fresh none).afterwards emptyOutside.host nulChunk) (.string nulText) := rfl
  have message : (ScriptError.runtime (Text.Utf8.lossy (beforeNul nulText.toList).toByteArray ++ "\n" ++
      Library.traceback)).message = "a" := by
    decide +kernel
  rw [first, Session.tellErrorWithin, told]
  exact congrArg (fun text => some (Except.error (EngineError.execution text))) message

/-- What stands before the NUL byte is no cut of the text. -/
theorem not_isCut_nul : ¬ ScriptError.IsCut (Text.Utf8.lossy nulText).toList "a".toList := by
  have text : (Text.Utf8.lossy nulText).toList = ['a', '\x00', 'b'] := by
    decide +kernel
  rintro ⟨kept, blanks, ⟨⟨rest, split, ends⟩, -⟩, rfl, blank, -⟩
  have after : ['\x00', 'b'] = blanks ++ rest := (List.cons.inj (text.symm.trans split)).2
  cases blanks with
  | nil =>
    obtain rfl : rest = ['\x00', 'b'] := after.symm
    obtain nothing | mark := ends
    · cases nothing
    · exact absurd mark (by decide)
  | cons c blanks =>
    obtain rfl : '\x00' = c := (List.cons.inj after).1
    exact absurd (blank _ List.mem_cons_self) (by decide)

/-- A text is told up to its first NUL byte, and not up to its traceback: a new engine shows it. -/
theorem told_up_to_nul :
    let e := (start (new .standard)).engine
    ∃ s p i, e.session? = some s ∧
      Session.compile s.heap.dumped e.config.sourceName nulSource = .ok p ∧
      ((s.evaluator p).run emptyOutside.host Session.patience).hasEnded = true ∧
      s.RaisesLast emptyOutside.host p i (.string nulText) ∧
      (e.execute emptyOutside nulSource).result = some (.error (.execution "a")) ∧
      ¬ ScriptError.IsCut (Text.Utf8.lossy nulText).toList "a".toList := by
  obtain ⟨limited, -⟩ | made := Session.start_cases none
  · exact absurd rfl limited
  · have engine : (start (new .standard)).engine = ⟨.standard, some (Session.fresh none)⟩ := by
      rw [start, new, startBy_fresh made]
    rw [engine]
    obtain ⟨ended, raised⟩ := outcome_nul
    have raises := (Session.outcome_goesOnAs emptyOutside.host (Session.hasHelper_fresh none) nulChunk ended).2
    obtain breaks | ⟨i, v, raises⟩ := raises _ raised
    · cases breaks
    · obtain rfl := raisesLast_nul raises
      exact ⟨_, nulChunk, i, rfl, compile_nul, ended, raises, result_nul, not_isCut_nul⟩

end Engine

end VaultConsole
