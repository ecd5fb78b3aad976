import VaultConsole.Proofs.EngineLifecycle
import VaultConsole.Proofs.Machine.Steps
import VaultConsole.Proofs.Messages

/-!
# The result of an execution

An execution compiles its source and runs a machine to its end. What that machine prints is told apart
from what was printed before: `linesPrinted` collects the lines of its steps, and since heaps only grow
these are all lines that are captured in the end (`run_lines`). `Engine.ExecutionLaw` says which of the
printed text, the first value and the error becomes the result.
-/

namespace VaultConsole

/-- Lines as a text: each of them is followed by a line feed. -/
def textOfLines (lines : List String) : String := lines.foldl (fun t line => t ++ line ++ "\n") ""

namespace Lua

namespace Machine

/-- The lines that a later heap has captured beyond an earlier one. -/
def newLines (h h' : Heap) : List String := h'.printed.lines.drop h.printed.lines.length

/-- The lines that the steps of a machine print, in order. -/
def linesPrinted (host : Host) : Nat → Machine → List String
  | 0, _ => []
  | fuel + 1, m =>
    if m.hasStopped then []
    else newLines m.heap (m.step host).heap ++ linesPrinted host fuel (m.step host)

/-- Nothing that was captured is lost or changed. -/
theorem lines_of_grows {h h' : Heap} (grows : h.Grows h') :
    h'.printed.lines = h.printed.lines ++ newLines h h' := by
  obtain ⟨later, split⟩ := grows.printed
  have lines : h'.printed.lines = h.printed.lines ++ later.reverse := by
    rw [Capture.lines, ← split, List.reverse_append]
    rfl
  rw [newLines, lines, List.drop_left]

/-- What is captured after a run is what was captured before, and then the lines of its steps. -/
theorem run_lines (host : Host) (fuel : Nat) (m : Machine) :
    (m.run host fuel).heap.printed.lines = m.heap.printed.lines ++ m.linesPrinted host fuel := by
  induction fuel generalizing m with
  | zero => exact (List.append_nil _).symm
  | succ fuel ih =>
    unfold run linesPrinted
    by_cases stopped : m.hasStopped = true
    · rw [if_pos stopped, if_pos stopped, List.append_nil]
    · rw [if_neg stopped, if_neg stopped, ih, lines_of_grows (step_grows host m), List.append_assoc]

end Machine

namespace Heap

theorem printed_newCells (globals : Value) (captures : List (CaptureSource × ByteArray)) (h : Heap)
    (cells : Array Captured) : (newCells globals captures h cells).1.printed = h.printed := by
  induction captures generalizing globals h cells with
  | nil => rfl
  | cons c captures ih => exact ih _ _ _

/-- A new function prints nothing. -/
theorem printed_newChunk (h : Heap) (p : Proto) (globals : Value) :
    (h.newChunk p globals).1.printed = h.printed := printed_newCells globals p.captures h #[]

end Heap

namespace Session

/-- The heap with which an evaluation begins: what was printed, logged and asked of the platform before is
forgotten. -/
def cleared (s : Session) : Heap :=
  { s.heap with printed := Capture.empty, logged := [], calls := [], used := Library.startSize }

/-- The machine of an evaluation: the helper is called with the function of the compiled source. -/
def evaluator (s : Session) (p : Proto) : Machine :=
  let added := s.cleared.newChunk p (.table s.cleared.globals)
  machine ⟨added.1, s.threads, .nil⟩ s.runner [.closure added.2]

/-- The lines that an evaluation prints. -/
def linesOf (host : Host) (s : Session) (p : Proto) : List String :=
  (s.evaluator p).linesPrinted host patience

/-- The session after the machine of an evaluation has ended. -/
def afterwards (host : Host) (s : Session) (p : Proto) : Session :=
  let m := (s.evaluator p).run host patience
  ⟨m.heap, m.threads.setIfInBounds m.thread .dead, s.runner⟩

/-- How the machine of an evaluation ends. -/
def outcome (host : Host) (s : Session) (p : Proto) : Ending :=
  ending ((s.evaluator p).run host patience)

/-- An evaluation of a source that does not compile fails. -/
theorem evaluate_uncompiled (host : Host) {s : Session} {name source : String} {cause : ScriptError}
    (failed : compile s.heap.dumped name source = .error cause) :
    (s.evaluate host name source).2 = some (.error cause) := by
  simp only [evaluate, failed]

/-- An evaluation of a source that compiles is a run of its machine. -/
theorem evaluate_compiled (host : Host) {s : Session} {name source : String} {p : Proto}
    (compiled : compile s.heap.dumped name source = .ok p) :
    s.evaluate host name source =
      match s.outcome host p with
      | .returned vs => (s.afterwards host p, some (.ok vs))
      | .raised v =>
        (((s.afterwards host p).tellError host v).1, ((s.afterwards host p).tellError host v).2.map .error)
      | .absent => (s.afterwards host p, none) := by
  have calls : call host ⟨(s.cleared.newChunk p (.table s.cleared.globals)).1, s.threads, s.runner⟩
      s.runner [.closure (s.cleared.newChunk p (.table s.cleared.globals)).2] =
      (s.afterwards host p, s.outcome host p) := rfl
  obtain ⟨heap, threads, runner⟩ := s
  simp only [evaluate, compiled]
  rw [cleared] at calls
  rw [calls]
  cases outcome host ⟨heap, threads, runner⟩ p with
  | returned vs => rfl
  | raised v => rfl
  | absent => rfl

/-- What is captured after an evaluation are the lines that it printed. -/
theorem lines_afterwards (host : Host) (s : Session) (p : Proto) :
    (s.afterwards host p).heap.printed.lines = s.linesOf host p := by
  have fresh : (s.evaluator p).heap.printed.lines = [] := by
    show (s.cleared.newChunk p _).1.printed.lines = []
    rw [Heap.printed_newChunk]
    rfl
  have lines := Machine.run_lines host patience (s.evaluator p)
  rw [fresh, List.nil_append] at lines
  exact lines

theorem text_afterwards (host : Host) (s : Session) (p : Proto) :
    (s.afterwards host p).heap.printed.text = textOfLines (s.linesOf host p) := by
  rw [← lines_afterwards]
  rfl

/-- The result of an evaluation that gives values. -/
theorem result_afterwards (host : Host) (s : Session) (p : Proto) (vs : List Value) :
    result (s.afterwards host p).heap vs =
      if Text.allBlank (textOfLines (s.linesOf host p)) then
        .value ((s.afterwards host p).heap.exportValue (vs.headD .nil))
      else .output (Text.trim (textOfLines (s.linesOf host p))) := by
  rw [result, text_afterwards]
  by_cases blank : Text.allBlank (textOfLines (s.linesOf host p)) = true
  · rw [if_pos blank, (Text.trim_eq_empty_iff _).2 blank]
    rfl
  · have kept : (Text.trim (textOfLines (s.linesOf host p))).isEmpty = false := by
      rw [String.isEmpty_eq_false_iff]
      exact fun nothing => blank ((Text.trim_eq_empty_iff _).1 nothing)
    rw [if_neg blank, kept]
    rfl

/-- What was captured before does not matter for an execution. -/
theorem execute_captured (host : Host) (s : Session) (printed : Capture) (name source : String) :
    execute host { s with heap := { s.heap with printed } } name source = execute host s name source := rfl

end Session

end Lua

namespace Engine

/-- Which result an execution has: an error if the source does not compile or the evaluation fails, the
trimmed text of the lines that the evaluation printed if there is more than blank characters in it, and
the first of the values otherwise. It has none just if the evaluation does not come back, or fails with a value whose
telling does not. -/
def ExecutionLaw (e : Engine) (o : Outside) (source : String) : Prop :=
  let answer := (e.execute o source).result
  match e.session? with
  | none => answer = some (.error .notInitialized)
  | some s =>
    match Lua.Session.compile s.heap.dumped e.config.sourceName source with
    | .error cause => answer = some (.error (.execution cause.message))
    | .ok p =>
      let printed := textOfLines (s.linesOf o.host p)
      match s.outcome o.host p with
      | .raised v =>
        (∃ message, answer = some (.error (.execution message))) ∨
          answer = none ∧ (s.afterwards o.host p).IsUntold o.host v
      | .returned vs =>
        (Text.allBlank printed = false → answer = some (.ok (.output (Text.trim printed)))) ∧
        (Text.allBlank printed = true → answer = some (.ok (.value (match vs with
          | [] => .nil
          | v :: _ => (s.afterwards o.host p).heap.exportValue v))))
      | .absent => answer = none

/-- The engine with another text left behind by earlier executions. -/
def withCaptured (e : Engine) (printed : Capture) : Engine :=
  { e with session? := e.session?.map fun s => { s with heap := { s.heap with printed } } }

theorem execute_lawful (e : Engine) (o : Outside) (source : String) : e.ExecutionLaw o source := by
  obtain ⟨config, session?⟩ := e
  cases session? with
  | none => rfl
  | some s =>
    have answer : (execute ⟨config, some s⟩ o source).result =
        (s.execute o.host config.sourceName source).2.map (·.mapError EngineError.ofScript) :=
      (executeBy_ready config s _ source).2
    simp only [ExecutionLaw, answer]
    rw [Lua.Session.execute]
    split
    · rename_i cause failed
      have evaluated := Lua.Session.evaluate_uncompiled o.host failed
      generalize s.evaluate o.host config.sourceName source = result at evaluated
      -- A source that is not compiled leaves the session and gives the fault.
      obtain ⟨s', outcome⟩ := result
      obtain rfl : outcome = some (.error cause) := evaluated
      rfl
    · rename_i p compiled
      rw [Lua.Session.evaluate_compiled o.host compiled]
      cases s.outcome o.host p with
      | raised v =>
        simp only []
        obtain ⟨told, same, -⟩ | ⟨untold, never⟩ :=
          Lua.Session.tells_or_isUntold o.host (s.afterwards o.host p) v
        · rw [same]
          exact .inl ⟨_, rfl⟩
        · rw [untold]
          exact .inr ⟨rfl, never⟩
      | returned vs =>
        simp only []
        -- What was printed comes first, if any of it is to be seen.
        rw [Lua.Session.result_afterwards]
        constructor
        · intro solid
          rw [solid]
          rfl
        · intro blank
          rw [blank]
          cases vs with
          | nil => rfl
          | cons v vs => rfl
      | absent => rfl

/-- An execution that gives a value and prints nothing hands out the value. -/
theorem execute_of_silent {config : EngineConfig} {s : Lua.Session} {o : Outside} {source : String} {p : Lua.Proto}
    {vs : List Lua.Value} (compiled : Lua.Session.compile s.heap.dumped config.sourceName source = .ok p)
    (returned : s.outcome o.host p = .returned vs) (silent : (s.afterwards o.host p).heap.printed.lines = []) :
    (execute ⟨config, some s⟩ o source).result =
      some (.ok (.value ((s.afterwards o.host p).heap.exportValue (vs.headD .nil)))) := by
  have law := execute_lawful ⟨config, some s⟩ o source
  rw [Lua.Session.lines_afterwards] at silent
  simp only [ExecutionLaw, compiled, returned, silent] at law
  rw [law.2 (by decide)]
  cases vs with
  | nil => rfl
  | cons v vs => rfl

/-- A printed text that is a result is not empty, and neither begins nor ends with a blank character. -/
theorem output_trimmed (e : Engine) (o : Outside) (source text : String)
    (h : (e.execute o source).result = some (.ok (.output text))) :
    text ≠ "" ∧ (∀ c, text.toList.head? = some c → Text.isBlank c = false) ∧
      ∀ c, text.toList.getLast? = some c → Text.isBlank c = false := by
  have law := e.execute_lawful o source
  simp only [ExecutionLaw, h] at law
  split at law
  · cases law
  · rename_i s _
    split at law
    · cases law
    · rename_i p _
      split at law
      · obtain ⟨message, same⟩ | ⟨same, -⟩ := law
        · cases same
        · cases same
      · obtain ⟨output, value⟩ := law
        generalize textOfLines (s.linesOf o.host p) = printed at output value
        cases blank : Text.allBlank printed with
        | true => cases Except.ok.inj (Option.some.inj (value blank))
        | false =>
          have kept : text = Text.trim printed :=
            Result.output.inj (Except.ok.inj (Option.some.inj (output blank)))
          rw [kept]
          refine ⟨?_, fun c => Text.head_trim, fun c => Text.getLast_trim⟩
          rw [ne_eq, Text.trim_eq_empty_iff, blank]
          exact Bool.false_ne_true
      · cases law

/-- After any run, an execution has the result that the lines which it prints itself, its values and its
failure determine, if it comes back; a printed text is trimmed and not empty; and what earlier executions have
printed does not matter. -/
theorem run_execute_lawful (config : EngineConfig) (ops : List Operation) (o : Outside) (source : String) :
    let e := (new config).performAll ops
    e.ExecutionLaw o source ∧
    (∀ text, (e.execute o source).result = some (.ok (.output text)) →
      text ≠ "" ∧ (∀ c, text.toList.head? = some c → Text.isBlank c = false) ∧
        ∀ c, text.toList.getLast? = some c → Text.isBlank c = false) ∧
    ∀ printed, ((e.withCaptured printed).execute o source).result = (e.execute o source).result := by
  intro e
  refine ⟨e.execute_lawful o source, fun text => e.output_trimmed o source text, ?_⟩
  intro printed
  obtain ⟨config, session?⟩ := e
  cases session? with
  | none => rfl
  | some s =>
    have before := (executeBy_ready config { s with heap := { s.heap with printed } }
      (fun name s => s.execute o.host name source) source).2
    have now := (executeBy_ready config s (fun name s => s.execute o.host name source) source).2
    rw [Lua.Session.execute_captured] at before
    exact before.trans now.symm

end Engine

end VaultConsole
