import VaultConsole.Proofs.Conversions
import VaultConsole.Proofs.Machine.Hosted

/-!
# The buffer of printed lines

Scripts print to one buffer, to which the host writes as well and which it clears. `print_atomic` says what a call
of print has written when it is over, and what the buffer holds after any uses of it. In the run that follows it,
`tostring` calls a metamethod that prints by itself, and then returns a text or raises an error.
-/

namespace VaultConsole

namespace Lua

namespace Library

/-- A text is told to the host as it is. -/
theorem exists_toldError (h : Heap) (w : ByteArray) : ∃ e, toldError? h (.string w) = some e := by
  unfold toldError?
  simp only []
  split
  · exact ⟨_, rfl⟩
  · exact ⟨_, rfl⟩

end Library

namespace Machine

/-! ## A metamethod that prints -/

/-- A function that prints a line, and returns what another one gives for a text. -/
def speaker (next : Value) : Closure :=
  ⟨.mk "console".toUTF8 [] false 0 0 [(.slot 0, "print".toUTF8), (.slot 1, "next".toUTF8)]
    [.call (.call (.carried 0 "print".toUTF8) [.const (.text "inner")] 1),
      .tailCall (.call (.carried 1 "next".toUTF8) [.const (.text "outer")] 1)],
    #[.value (.builtin (.host .print)), .value next]⟩

/-- A new session when a script has made that function, and a table that is converted by it. -/
def speakerHeap (next : Value) : Heap :=
  ((Session.fresh none).heap.newClosure (speaker next)).1.withMeta
    (Library.tableOf [("__tostring", .closure (Session.fresh none).heap.closures.size)])

def speakerTable : Value := .table ((Session.fresh none).heap.tables.size + 1)

theorem metafield_speakerHeap (next : Value) :
    (speakerHeap next).metafield speakerTable "__tostring".toUTF8 =
      .closure (Session.fresh none).heap.closures.size := by
  have record : (Library.tableOf [("__tostring", .closure (Session.fresh none).heap.closures.size)]).IsRecord _ :=
    Table.isRecord_tableOf (by decide) (by simp [Value.isNil])
  exact (Heap.metafield_withMeta _ _ _).trans (record.get_text List.mem_cons_self)

/-- A metamethod gives the text of a value. -/
theorem run_toText_of_metafield {h : Heap} {v f : Value} (found : h.metafield v "__tostring".toUTF8 = f)
    (solid : f.isNil = false) : ∃ next, (Metamethod.toText v).run h = .call f [v] h next ∧
      ∀ bytes h', next [.string bytes] h' = .done bytes h' := by
  have first : (Action.inspect (·.metafield v "__tostring".toUTF8)).run h = .done f h :=
    congrArg (Act.done · h) found
  unfold Metamethod.toText
  rw [Action.run_bind_of_done first]
  cases f with
  | nil => cases solid
  | _ => exact ⟨_, rfl, fun _ _ => rfl⟩

/-- A library function that calls goes on above its frame, if calls do not nest too deeply. -/
theorem runNative_of_call {a : Action (List Value)} {m : Machine} {f : Value} {args : List Value} {h : Heap}
    {next : List Value → Heap → Act (List Value)} (calls : a.run m.heap = .call f args h next)
    (shallow : m.depth + 1 < maxDepth) (host : Host) (g : Value) :
    ∃ rest : List Value → Action (List Value), (∀ vs, (rest vs).run = next vs) ∧
      m.runNative host g a =
        { m with
          focus := .enter f args, stack := .native g rest m.depth m.room :: m.stack, heap := h
          depth := m.depth + 1 } := by
  obtain ⟨focus, act, stack, heap, depth, room, thread, threads, resumers⟩ := m
  obtain ⟨grows, goes⟩ := exists_continueNative host g
    ⟨focus, act, stack, default, depth, room, thread, threads, resumers⟩ (a.grows heap) calls
  have nested : continueNative host g ⟨focus, act, stack, default, depth, room, thread, threads, resumers⟩
      (.call f args h next) grows =
      nest ⟨focus, act, stack, h, depth, room, thread, threads, resumers⟩ ByteArray.empty fun m =>
        { m with
          focus := .enter f args
          stack := .native g (fun vs => ⟨next vs, grows.after_call vs⟩) depth room :: m.stack } := rfl
  have fits : depth + 1 < maxDepth := shallow
  refine ⟨fun vs => ⟨next vs, grows.after_call vs⟩, fun vs => rfl, goes.trans ?_⟩
  rw [nested, nest_of_lt fits]

/-- A machine in which `tostring` has called the metamethod of the table, for a function that waits in a frame. -/
def spelling (next : Value) (rest : List Value → Action (List Value)) (F : Frame) : Machine :=
  { showing (speakerHeap next) speakerTable with
    focus := .enter (.closure (Session.fresh none).heap.closures.size) [speakerTable]
    stack := [.native (.builtin (.base .tostring)) rest 2 0, .protect none 1 0, F]
    depth := 3 }

theorem exists_spelling (host : Host) (next : Value) (F : Frame) :
    ∃ rest, step host (converting { showing (speakerHeap next) speakerTable with focus := .done } F speakerTable) =
        spelling next rest F ∧
      ∀ bytes h, (rest [.string bytes]).run h = .done [.string bytes] h := by
  obtain ⟨more, run, gives⟩ := run_toText_of_metafield (metafield_speakerHeap next) rfl
  let m : Machine := { showing (speakerHeap next) speakerTable with focus := .done }
  have calls : (Library.run 2 (.base .tostring) [speakerTable]).run m.heap = _ :=
    (Library.run_tostring 2 speakerTable m.heap).trans (congrArg (Act.bind · _) run)
  obtain ⟨rest, goes, entered⟩ := runNative_of_call (m := { m.converting F speakerTable with focus := .done }) calls
    (show 2 + 1 < maxDepth by decide) host (.builtin (.base .tostring))
  refine ⟨rest, entered, fun bytes h => ?_⟩
  rw [goes]
  show (more [.string bytes] h).bind _ = _
  rw [gives]
  rfl

/-- The function prints its line, and calls the other one in its own place. -/
theorem step_speaker (host : Host) {m : Machine} {r : Nat} {next : Value}
    (closure : m.heap.closures[r]? = some (speaker next)) (free : m.heap.limit? = none) (fits : m.room + 4 ≤ maxRoom)
    (args : List Value) :
    (step host)^[7] { m with focus := .enter (.closure r) args } =
      { m with
        focus := .values [.text "outer"], act := ⟨"console".toUTF8, (speaker next).carried, #[], #[], []⟩
        stack := .call next (.code (.carried 1 "next".toUTF8)) 1 .tail :: m.stack
        heap := m.heap.print "inner", room := m.room + 4 } := by
  have entered : step host { m with focus := .enter (.closure r) args } =
      { m with
        focus := .exec (speaker next).proto.body
        act := ⟨"console".toUTF8, (speaker next).carried, #[], #[], []⟩, room := m.room + 4 } := by
    obtain ⟨short, -⟩ | entered := enterClosure_cases m closure args fits
    · rw [Heap.exceeds, free] at short
      cases short
    · exact entered
  have text : "\t".intercalate [Text.Utf8.lossy "inner".toUTF8] = "inner" := by decide +kernel
  rw [Function.iterate_succ_apply, entered, ← text]
  rfl

/-- A machine that calls the other function, above a call of `tostring` with errors caught. -/
def finishing (m : Machine) (next : Value) (rest : List Value → Action (List Value)) (F : Frame) : Machine :=
  { m with
    focus := .values [.text "outer"]
    stack := [.call next (.code (.carried 1 "next".toUTF8)) 1 .tail, .native (.builtin (.base .tostring)) rest 2 0,
      .protect none 1 0, F] }

/-- What `assert` gives is returned. -/
theorem step_assert (host : Host) (m : Machine) (rest : List Value → Action (List Value)) (F : Frame) :
    ∃ m', (step host)^[4] (finishing m (.builtin (.base .assert)) rest F) = m' ∧
      Arrives m.resumers [.native (.builtin (.base .tostring)) rest 2 0, .protect none 1 0, F] m' [.text "outer"] ∧
      m'.heap = m.heap := ⟨_, rfl, ⟨rfl, rfl, rfl⟩, rfl⟩

/-- What `error` raises is caught above a frame. -/
theorem step_error (host : Host) (m : Machine) (rest : List Value → Action (List Value)) (F : Frame) :
    ∃ m' w, (step host)^[3] (finishing m (.builtin (.base .error)) rest F) = m' ∧
      Arrives m.resumers [F] m' [.bool false, .string w] ∧ m'.heap = m.heap := ⟨_, _, rfl, ⟨rfl, rfl, rfl⟩, rfl⟩

/-- A machine that is about to print the table. -/
def speaking (next : Value) : Machine := showing (speakerHeap next) speakerTable

theorem speaking_invokes (next : Value) :
    (speaking next).Invokes (.host .print) [speakerTable] { speaking next with focus := .done } :=
  showing_invokes _ _

theorem closure_speakerHeap (next : Value) :
    (speakerHeap next).closures[(Session.fresh none).heap.closures.size]? = some (speaker next) :=
  Array.getElem?_push_size

theorem tostring_speakerHeap (next : Value) :
    (speakerHeap next).rawGet (speakerHeap next).globals (.text "tostring") = .builtin (.base .tostring) := by
  have before : (Session.fresh none).heap.globals < (Session.fresh none).heap.tables.size := by
    show 0 < _
    decide +kernel
  have kept : (speakerHeap next).table (Session.fresh none).heap.globals =
      (Session.fresh none).heap.table (Session.fresh none).heap.globals := Heap.table_withMeta _ _ before
  refine Eq.trans ?_ (Session.rawGet_base none ("tostring", .tostring) (by decide))
  exact congrArg (Table.get · (.text "tostring")) kept

/-- Ten steps lead to the call of the other function. -/
theorem step_speaking (host : Host) (next : Value) :
    ∃ F m rest, Awaits host .print speakerTable (speaking next) { speaking next with focus := .done } F ∧
      (step host)^[10] (speaking next) = finishing m next rest F ∧ m.resumers = [] ∧
      m.heap = (speakerHeap next).print "inner" ∧
      ∀ bytes h, (rest [.string bytes]).run h = .done [.string bytes] h := by
  obtain ⟨F, awaits⟩ := exists_awaits host (s := .print) (speaking_invokes next) (fun _ => Value.noConfusion)
    (tostring_speakerHeap next) (show 0 + 2 < maxDepth by decide)
  obtain ⟨rest, spells, gives⟩ := exists_spelling host next F
  have speaks := step_speaker host (m := spelling next rest F) (closure_speakerHeap next) rfl
    (show 0 + 4 ≤ maxRoom by decide) [speakerTable]
  let m : Machine :=
    { spelling next rest F with
      act := ⟨"console".toUTF8, (speaker next).carried, #[], #[], []⟩
      heap := (speakerHeap next).print "inner", room := 4 }
  refine ⟨F, m, rest, awaits, ?_, rfl, rfl, gives⟩
  rw [Function.iterate_add_apply _ 7 3, Function.iterate_succ_apply' _ 2, awaits.calls]
  exact (congrArg _ spells).trans speaks

/-- With `assert`, the line of the text comes last. -/
theorem step_speaking_assert (host : Host) :
    Arrives [] [] ((step host)^[16 + 1] (speaking (.builtin (.base .assert)))) [] ∧
      ((step host)^[16 + 1] (speaking (.builtin (.base .assert)))).heap.printed.lines = ["inner", "outer"] := by
  obtain ⟨F, m, rest, awaits, called, running, heap, gives⟩ := step_speaking host (.builtin (.base .assert))
  obtain ⟨m₁, returned, arrives, heap₁⟩ := step_assert host m rest F
  rw [running] at arrives
  let m₂ : Machine := { m₁ with focus := .give [.text "outer"], stack := [.protect none 1 0, F], depth := 2, room := 0 }
  let m₃ : Machine := { m₁ with focus := .give [.bool true, .text "outer"], stack := [F], depth := 1, room := 0 }
  have told : step host m₁ = m₂ := by
    rw [step_native arrives]
    exact runNative_of_done (gives _ _) _
  have caught : step host m₂ = m₃ := rfl
  have back : Arrives [] [F] m₃ [.bool true, .text "outer"] := ⟨arrives.1, rfl, rfl⟩
  have decoded : Text.Utf8.decode "outer".toUTF8 = .ok "outer" := Text.Utf8.decode_eq_ok.2 rfl
  have last : (step host)^[16 + 1] (speaking (.builtin (.base .assert))) = step host m₃ := by
    rw [show 16 + 1 = 3 + 4 + 10 from rfl, Function.iterate_add_apply _ (3 + 4), called,
      Function.iterate_add_apply _ 3 4, returned]
    exact congrArg (step host) ((congrArg (step host) told).trans caught)
  rw [last, awaits.shows back decoded]
  refine ⟨⟨arrives.1, rfl, rfl⟩, ?_⟩
  show ((m₁.heap.print "outer").printed).lines = _
  rw [heap₁, heap]
  rfl

/-- With `error`, no line comes after that of the function. -/
theorem step_speaking_error (host : Host) :
    ∃ e, ((step host)^[13 + 1] (speaking (.builtin (.base .error)))).focus = .raise e ∧
      ((step host)^[13 + 1] (speaking (.builtin (.base .error)))).stack = [] ∧
      ((step host)^[13 + 1] (speaking (.builtin (.base .error)))).resumers = [] ∧
      ((step host)^[13 + 1] (speaking (.builtin (.base .error)))).heap.printed.lines = ["inner"] := by
  obtain ⟨F, m, rest, awaits, called, running, heap, -⟩ := step_speaking host (.builtin (.base .error))
  obtain ⟨m₁, w, raised, arrives, heap₁⟩ := step_error host m rest F
  rw [running] at arrives
  obtain ⟨e, known⟩ := Library.exists_toldError m₁.heap w
  have last : (step host)^[13 + 1] (speaking (.builtin (.base .error))) = step host m₁ := by
    rw [show 13 + 1 = 1 + 3 + 10 from rfl, Function.iterate_add_apply _ (1 + 3), called,
      Function.iterate_add_apply _ 1 3, raised]
    rfl
  rw [last, awaits.tells arrives known]
  refine ⟨_, rfl, rfl, arrives.1, ?_⟩
  show m₁.heap.printed.lines = _
  rw [heap₁, heap]
  rfl

/-! ## The end of a run -/

/-- Whether results or an error come out where nothing waits for them. -/
def ending? : Focus → Option Bool
  | .give _ | .finished _ => some true
  | .raise _ | .unwind _ | .failed _ => some false
  | _ => none

/-- What has come out changes nothing any more. -/
theorem iterate_of_ending (host : Host) {m : Machine} {given : Bool} (stack : m.stack = []) (running : m.resumers = [])
    (ends : ending? m.focus = some given) (n : Nat) :
    ((step host)^[n] m).stack = [] ∧ ((step host)^[n] m).resumers = [] ∧ ((step host)^[n] m).heap = m.heap ∧
      ending? ((step host)^[n] m).focus = some given := by
  induction n with
  | zero => exact ⟨stack, running, rfl, ends⟩
  | succ n ih =>
    obtain ⟨stack, running, heap, ends⟩ := ih
    rw [Function.iterate_succ_apply', ← heap]
    generalize (step host)^[n] m = last at stack running ends
    obtain ⟨focus, act, S, h, depth, room, thread, threads, R⟩ := last
    obtain rfl : S = [] := stack
    obtain rfl : R = [] := running
    cases focus with
    | give vs => exact ⟨rfl, rfl, rfl, ends⟩
    | finished vs => exact ⟨rfl, rfl, rfl, ends⟩
    | raise e => exact ⟨rfl, rfl, rfl, ends⟩
    | unwind e => exact ⟨rfl, rfl, rfl, ends⟩
    | failed e => exact ⟨rfl, rfl, rfl, ends⟩
    | _ => cases ends

/-- A call of print that comes back where nothing waits for it has printed all lines that are there later. -/
theorem exists_prints (host : Host) {m m' : Machine} {args : List Value} {N : Nat} (stack : m'.stack = [])
    (running : m'.resumers = []) (silent : m.heap.printed.lines = [])
    (course : (∀ n, Within m'.resumers m'.stack ((step host)^[n + 1] m)) ∨
      ∃ n, (∀ k, k < n → Within m'.resumers m'.stack ((step host)^[k + 1] m)) ∧ Prints host m m' args n)
    (stack' : ((step host)^[N + 1] m).stack = []) (running' : ((step host)^[N + 1] m).resumers = []) :
    ∃ n, Prints host m m' args n ∧ ((step host)^[n + 1] m).heap = ((step host)^[N + 1] m).heap ∧
      ((ending? ((step host)^[N + 1] m).focus = some true ∧ ∃ text,
          ((step host)^[N + 1] m).heap.printed.lines = m.linesPrinted host n ++ [text]) ∨
        (ending? ((step host)^[N + 1] m).focus = some false ∧
          ((step host)^[N + 1] m).heap.printed.lines = m.linesPrinted host n)) := by
  rw [stack, running] at course
  have out : ¬ Within [] [] ((step host)^[N + 1] m) := not_within running' stack'
  obtain stays | ⟨n, inside, prints⟩ := course
  · exact absurd (stays N) out
  · have before : n ≤ N := Nat.le_of_not_lt fun later => out (inside N later)
    have later : (step host)^[N - n] ((step host)^[n + 1] m) = (step host)^[N + 1] m := by
      rw [← Function.iterate_add_apply, show N - n + (n + 1) = N + 1 by omega]
    refine ⟨n, prints, ?_⟩
    rw [← later]
    cases prints with
    | writes texts h converts gives lines =>
      obtain ⟨back, top, given⟩ := gives
      have finished : ending? ((step host)^[n + 1] m).focus = some true := by
        rw [given]
        rfl
      obtain ⟨-, -, heap, ends⟩ := iterate_of_ending host (top.trans stack) (back.trans running) finished (N - n)
      rw [heap, lines, silent]
      exact ⟨rfl, .inl ⟨ends, _, rfl⟩⟩
    | fails before after v texts h e split converts fails top back raised lines =>
      have fault : ending? ((step host)^[n + 1] m).focus = some false := by
        obtain raised | raised := raised
        · rw [raised]
          rfl
        · rw [raised]
          rfl
      obtain ⟨-, -, heap, ends⟩ := iterate_of_ending host (top.trans stack) (back.trans running) fault (N - n)
      rw [heap, lines, silent]
      exact ⟨rfl, .inr ⟨ends, rfl⟩⟩

/-! ## Uses of the buffer -/

/-- What may happen next to what is captured: the machine takes a step, the host writes a line itself, or it clears
the buffer. All of them share one buffer. -/
inductive Turn where
  | step
  | write (line : String)
  | clear
  deriving DecidableEq, Repr

namespace Turn

/-- The machine after a turn. -/
def take (host : Host) (m : Machine) : Turn → Machine
  | step => m.step host
  | write line => { m with heap := m.heap.print line }
  | clear => { m with heap := { m.heap with printed := Capture.empty } }

/-- The lines that are appended in a turn. -/
def lines (host : Host) (m : Machine) : Turn → List String
  | step => newLines m.heap (m.step host).heap
  | write line => [line]
  | clear => []

end Turn

/-- The machine after some turns. -/
def taking (host : Host) (m : Machine) (turns : List Turn) : Machine := turns.foldl (Turn.take host) m

/-- The lines that are appended in some turns, in order. -/
def linesTaking (host : Host) (m : Machine) : List Turn → List String
  | [] => []
  | t :: ts => t.lines host m ++ linesTaking host (t.take host m) ts

/-- A turn in which the buffer is not cleared appends its lines. -/
theorem Turn.lines_take (host : Host) (m : Machine) {t : Turn} (keeps : t ≠ .clear) :
    (t.take host m).heap.printed.lines = m.heap.printed.lines ++ t.lines host m := by
  cases t with
  | step => exact lines_of_grows (step_grows host m)
  | write line => exact List.reverse_cons
  | clear => exact absurd rfl keeps

/-- Turns in which the buffer is not cleared append their lines. -/
theorem lines_taking (host : Host) (m : Machine) {turns : List Turn} (keeps : .clear ∉ turns) :
    (m.taking host turns).heap.printed.lines = m.heap.printed.lines ++ m.linesTaking host turns := by
  induction turns generalizing m with
  | nil => exact (List.append_nil _).symm
  | cons t ts ih =>
    have here : t ≠ .clear := fun same => keeps (same ▸ List.mem_cons_self)
    have first := Turn.lines_take host m here
    have rest := ih (t.take host m) fun later => keeps (List.mem_cons_of_mem _ later)
    rw [first, List.append_assoc] at rest
    exact rest

/-- After the buffer was cleared it holds the lines that were appended since. -/
theorem text_taking (host : Host) (m : Machine) (before : List Turn) {after : List Turn} (keeps : .clear ∉ after) :
    (m.taking host (before ++ .clear :: after)).heap.printed.text =
      textOfLines ((m.taking host (before ++ [.clear])).linesTaking host after) := by
  have split : m.taking host (before ++ .clear :: after) = (m.taking host (before ++ [.clear])).taking host after := by
    simp only [taking, List.foldl_append, List.foldl_cons, List.foldl_nil]
  have empty : (m.taking host (before ++ [.clear])).heap.printed.lines = [] := by
    rw [taking, List.foldl_append]
    rfl
  rw [split, Capture.text, lines_taking host _ keeps, empty, List.nil_append]
  rfl

/-- **Printing is atomic and ordered.** However the conversions of its arguments go on, a call of print that comes
to an end has written one line after all others, or has failed and written none. Whatever else uses the buffer in
between, it holds the lines that were appended since it was cleared. -/
theorem print_atomic (host : Host) :
    (∀ {m m' : Machine} {args : List Value}, m.Invokes (.host .print) args m' →
      (∀ n, Within m'.resumers m'.stack ((step host)^[n + 1] m)) ∨
        ∃ n, (∀ k, k < n → Within m'.resumers m'.stack ((step host)^[k + 1] m)) ∧ Prints host m m' args n) ∧
    (∀ (m : Machine) (turns : List Turn), .clear ∉ turns →
      (m.taking host turns).heap.printed.text = textOfLines (m.heap.printed.lines ++ m.linesTaking host turns)) ∧
    ∀ (m : Machine) (before after : List Turn), .clear ∉ after →
      (m.taking host (before ++ .clear :: after)).heap.printed.text =
        textOfLines ((m.taking host (before ++ [.clear])).linesTaking host after) := by
  refine ⟨prints_of_invokes, fun m turns keeps => ?_, fun m before after keeps => text_taking host m before keeps⟩
  rw [Capture.text, lines_taking host m keeps]
  rfl

/-- Print is called with a table whose metamethod prints a line. If it returns a text, that comes in the line after;
if it raises an error, there is no other line. -/
theorem print_atomic_nested :
    (∀ host, ∃ n,
      Prints host (speaking (.builtin (.base .assert)))
        { speaking (.builtin (.base .assert)) with focus := .done } [speakerTable] n ∧
      (speaking (.builtin (.base .assert))).linesPrinted host n = ["inner"] ∧
      ((step host)^[n + 1] (speaking (.builtin (.base .assert)))).heap.printed.lines = ["inner", "outer"]) ∧
    ∀ host, ∃ n,
      Prints host (speaking (.builtin (.base .error)))
        { speaking (.builtin (.base .error)) with focus := .done } [speakerTable] n ∧
      (speaking (.builtin (.base .error))).linesPrinted host n = ["inner"] ∧
      ((step host)^[n + 1] (speaking (.builtin (.base .error)))).heap.printed.lines = ["inner"] := by
  constructor
  · intro host
    obtain ⟨arrives, lines⟩ := step_speaking_assert host
    obtain ⟨n, prints, heap, ⟨-, text, printed⟩ | ⟨ends, -⟩⟩ := exists_prints host (N := 16) rfl rfl rfl
      ((print_atomic host).1 (speaking_invokes (.builtin (.base .assert)))) arrives.2.1 arrives.1
    · have both : ["inner"] ++ ["outer"] = _ := lines.symm.trans printed
      exact ⟨n, prints, (List.append_inj' both rfl).1.symm, (congrArg (·.printed.lines) heap).trans lines⟩
    · rw [arrives.2.2] at ends
      cases ends
  · intro host
    obtain ⟨e, raised, stack, running, lines⟩ := step_speaking_error host
    obtain ⟨n, prints, heap, ⟨ends, -⟩ | ⟨-, printed⟩⟩ := exists_prints host (N := 13) rfl rfl rfl
      ((print_atomic host).1 (speaking_invokes (.builtin (.base .error)))) stack running
    · rw [raised] at ends
      cases ends
    · exact ⟨n, prints, printed.symm.trans lines, (congrArg (·.printed.lines) heap).trans lines⟩

end Machine

end Lua

end VaultConsole
