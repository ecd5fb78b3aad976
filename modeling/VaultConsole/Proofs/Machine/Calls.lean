import VaultConsole.Lua.Machine.Calls

/-!
# What calls do to the stacks

A call, an operation or a library function of a machine only pushes frames that wait for results
(`Pushes`), or it changes to another coroutine (`Moves`): it resumes one, and the stack so far waits with
the resumer, or it gives the turn back to the resumer. In no case are frames of the waiting stack taken
away, and heaps only grow. The frames that errors push are not among those pushed here (`isPlain`), and no
error goes on to where it is caught, unless errors nest too deeply (`GoesOn`).
-/

namespace VaultConsole.Lua

/-- Whether a frame is one that no error has pushed. -/
def Frame.isPlain : Frame → Bool
  | .handled .. => false
  | .closed _ _ (.unwind _) _ _ => false
  | _ => true

namespace Machine

/-- Whether errors are not handled any more: calls nest too deeply, or functions take too much room while
an error is being handled. -/
def IsDeep (m : Machine) : Prop :=
  maxErrorDepth ≤ m.depth + 1 ∨ (maxRoom < m.room ∧ isHandling m.stack)

/-- Whether the machine has come neither to results nor to an error, and no error goes on to where it is caught,
unless errors are not handled any more. -/
def GoesOn (m : Machine) : Prop :=
  match m.focus with
  | .unwind e => e = .text "error in error handling" ∧ m.IsDeep
  | .finished _ => False
  | .failed _ => False
  | _ => True

/-- A machine that goes on above the stack of another one. -/
structure Pushes (m m' : Machine) : Prop where
  heap : m.heap.Grows m'.heap
  stack : ∃ pre, m'.stack = pre ++ m.stack ∧ ∀ f ∈ pre, f.isPlain
  thread : m'.thread = m.thread
  resumers : m'.resumers = m.resumers
  focus : m.GoesOn → m'.GoesOn

namespace Pushes

variable {m m' m'' : Machine}

/-- A machine that goes on with the same stack. -/
theorem none (heap : m.heap.Grows m'.heap) (stack : m'.stack = m.stack) (thread : m'.thread = m.thread)
    (resumers : m'.resumers = m.resumers) (focus : m.GoesOn → m'.GoesOn) : Pushes m m' :=
  ⟨heap, ⟨[], stack, by simp⟩, thread, resumers, focus⟩

/-- A machine that goes on above one more frame. -/
theorem one (f : Frame) (plain : f.isPlain) (heap : m.heap.Grows m'.heap)
    (stack : m'.stack = f :: m.stack) (thread : m'.thread = m.thread)
    (resumers : m'.resumers = m.resumers) (focus : m.GoesOn → m'.GoesOn) : Pushes m m' :=
  ⟨heap, ⟨[f], stack, by simpa using plain⟩, thread, resumers, focus⟩

theorem refl (m : Machine) : Pushes m m := none (.refl _) rfl rfl rfl id

theorem trans (h : Pushes m m') (h' : Pushes m' m'') : Pushes m m'' := by
  obtain ⟨pre, stack, plain⟩ := h.stack
  obtain ⟨pre', stack', plain'⟩ := h'.stack
  refine ⟨h.heap.trans h'.heap, ⟨pre' ++ pre, ?_, ?_⟩, h'.thread.trans h.thread,
    h'.resumers.trans h.resumers, fun goes => h'.focus (h.focus goes)⟩
  · rw [stack', stack, List.append_assoc]
  · intro f member
    obtain member | member := List.mem_append.1 member
    · exact plain' f member
    · exact plain f member

end Pushes

/-- A machine that does something else next. -/
theorem pushes_focus (m : Machine) {focus : Focus} (goes : GoesOn { m with focus }) :
    Pushes m { m with focus } :=
  .none (.refl _) rfl rfl rfl fun _ => goes

/-- A machine with a heap that has grown. -/
theorem pushes_heap (m : Machine) {h h' : Heap} (grows : h.Grows h') :
    Pushes { m with heap := h } { m with heap := h' } := .none grows rfl rfl rfl id

/-- A machine with one more frame. -/
theorem pushes_frame (m : Machine) {f : Frame} (plain : f.isPlain) :
    Pushes m { m with stack := f :: m.stack } := by
  refine .one f plain (.refl _) rfl rfl rfl fun goes => ?_
  obtain ⟨focus, act, stack, heap, depth, room, thread, threads, resumers⟩ := m
  cases focus with
  | unwind e =>
    obtain ⟨same, nesting | ⟨taken, handling⟩⟩ := goes
    · exact ⟨same, .inl nesting⟩
    · refine ⟨same, .inr ⟨taken, ?_⟩⟩
      show (_ || isHandling stack) = true
      rw [handling, Bool.or_true]
  | finished vs => cases goes
  | failed e => cases goes
  | _ => trivial

/-- A machine with other states of its coroutines. -/
theorem pushes_threads (m : Machine) (threads : Array ThreadState) : Pushes m { m with threads } :=
  .none (.refl _) rfl rfl rfl id

/-- What lies above a stack does not let it be suspended where it cannot be by itself. -/
theorem isYieldable_of_append {pre rest : List Frame} (free : isYieldable (pre ++ rest) = true) :
    isYieldable rest = true := by
  induction pre with
  | nil => exact free
  | cons f fs ih =>
    cases f with
    | native => cases free
    | handled => cases free
    | closed act line after =>
      cases after with
      | unwind e => cases free
      | _ => exact ih free
    | _ => exact ih free

theorem handler?_of_append {pre rest : List Frame} (uncaught : handler? (pre ++ rest) = none) :
    handler? rest = none := by
  induction pre with
  | nil => exact uncaught
  | cons f fs ih =>
    cases f with
    | protect => cases uncaught
    | _ => exact ih uncaught

/-- A machine that goes on in the coroutine that has resumed the one of another machine. That happens where
nothing has to return first, or where nothing catches an error. -/
structure Leaves (m m' : Machine) : Prop where
  free : isYieldable m.stack = true ∨ handler? m.stack = none
  heap : m.heap.Grows m'.heap
  resumer : ∃ r, m.resumers = r :: m'.resumers ∧ m'.thread = r.thread ∧
    ∃ pre, m'.stack = pre ++ r.stack ∧ ∀ f ∈ pre, f.isPlain
  focus : m'.GoesOn

theorem Pushes.leaves {m m' m'' : Machine} (h : Pushes m m') (h' : Leaves m' m'') : Leaves m m'' := by
  obtain ⟨r, resumers, thread, pre, stack, plain⟩ := h'.resumer
  obtain ⟨pushed, above, -⟩ := h.stack
  have free := h'.free
  rw [above] at free
  exact ⟨free.imp isYieldable_of_append handler?_of_append, h.heap.trans h'.heap,
    ⟨r, h.resumers.symm.trans resumers, thread, pre, stack, plain⟩, h'.focus⟩

/-- A machine that goes on above the stack of another one, or in another coroutine. -/
inductive Moves (m m' : Machine) : Prop where
  | pushes (h : Pushes m m')
  /-- The stack waits with the resumer of the coroutine that goes on. -/
  | resumes (heap : m.heap.Grows m'.heap) (r : Resumer) (resumers : m'.resumers = r :: m.resumers)
      (thread : r.thread = m.thread) (pre : List Frame) (stack : r.stack = pre ++ m.stack)
      (plain : ∀ f ∈ pre, f.isPlain) (focus : m'.GoesOn)
  /-- The resumer goes on. -/
  | leaves (h : Leaves m m')

theorem Moves.heap {m m' : Machine} (h : Moves m m') : m.heap.Grows m'.heap := by
  cases h with
  | pushes h => exact h.heap
  | resumes heap => exact heap
  | leaves h => exact h.heap

/-- A move after frames were pushed. -/
theorem Pushes.moves {m m' m'' : Machine} (h : Pushes m m') (h' : Moves m' m'') : Moves m m'' := by
  cases h' with
  | pushes h' => exact .pushes (h.trans h')
  | resumes heap r resumers thread pre stack plain focus =>
    obtain ⟨pre', stack', plain'⟩ := h.stack
    refine .resumes (h.heap.trans heap) r (resumers.trans (congrArg _ h.resumers))
      (thread.trans h.thread) (pre ++ pre') ?_ ?_ focus
    · rw [stack, stack', List.append_assoc]
    · intro f member
      obtain member | member := List.mem_append.1 member
      · exact plain f member
      · exact plain' f member
  | leaves h' => exact .leaves (h.leaves h')

/-! ## Results and nested calls -/

theorem pushes_raise (m : Machine) (e : Value) : Pushes m (m.raise e) := pushes_focus _ trivial

theorem pushes_raiseText (m : Machine) (text : ByteArray) : Pushes m (m.raiseText text) :=
  pushes_focus _ trivial

theorem pushes_deliver (m : Machine) (want : Want) (vs : List Value) : Pushes m (deliver m want vs) := by
  cases want with
  | one => exact pushes_focus _ trivial
  | all => exact pushes_focus _ trivial
  | none => exact pushes_focus _ trivial
  | tail => exact pushes_focus _ trivial

theorem pushes_nest {m : Machine} {place : ByteArray} {go : Machine → Machine}
    (h : ∀ depth, Pushes m (go { m with depth })) : Pushes m (nest m place go) := by
  unfold nest
  simp only []
  split
  · exact .none (.refl _) rfl rfl rfl fun _ => trivial
  · split
    · rename_i deep
      exact .none (.refl _) rfl rfl rfl fun _ => ⟨rfl, .inl deep⟩
    · exact h _

/-! ## Operations and library functions -/

theorem pushes_continueOperation {h : Heap} (m : Machine) (a : Act (List Value)) (grows : a.Grows h)
    (event : Event) (operands : List Code) (line : Nat) (want : Want) :
    Pushes { m with heap := h } (continueOperation m a grows event operands line want) := by
  cases a with
  | done vs heap =>
    have begins : h.Grows heap := grows.begins
    simp only [continueOperation]
    exact (pushes_heap m begins).trans (pushes_deliver _ want vs)
  | fail f heap =>
    have begins : h.Grows heap := grows.begins
    exact .none begins rfl rfl rfl fun _ => trivial
  | call f args heap next =>
    have begins : h.Grows heap := grows.begins
    simp only [continueOperation]
    refine (pushes_heap m begins).trans (pushes_nest fun depth => ?_)
    exact .one _ rfl (.refl _) rfl rfl rfl fun _ => trivial
  | ask q heap next =>
    have begins : h.Grows heap := grows.begins
    exact .none begins rfl rfl rfl fun _ => trivial
  | platform c heap next =>
    have begins : h.Grows heap := grows.begins
    exact .none begins rfl rfl rfl fun _ => trivial

theorem pushes_operate (m : Machine) (action : Action (List Value)) (event : Event)
    (operands : List Code) (line : Nat) (want : Want) :
    Pushes m (operate m action event operands line want) :=
  pushes_continueOperation { m with heap := default } _ (action.grows m.heap) event operands line want

theorem pushes_continueNative (host : Host) (g : Value) (m : Machine) {h : Heap} (a : Act (List Value))
    (grows : a.Grows h) : Pushes { m with heap := h } (continueNative host g m a grows) := by
  induction a generalizing h with
  | done vs heap =>
    have begins : h.Grows heap := grows.begins
    exact .none begins rfl rfl rfl fun _ => trivial
  | fail f heap =>
    have begins : h.Grows heap := grows.begins
    exact .none begins rfl rfl rfl fun _ => trivial
  | call f args heap next =>
    have begins : h.Grows heap := grows.begins
    simp only [continueNative]
    refine (pushes_heap m begins).trans (pushes_nest fun depth => ?_)
    exact .one _ rfl (.refl _) rfl rfl rfl fun _ => trivial
  | ask q heap next ih =>
    have begins : h.Grows (heap.note (host.notes heap.calls q)) := grows.begins.trans (heap.grows_note _)
    simp only [continueNative]
    split
    · exact .none begins rfl rfl rfl fun _ => trivial
    · exact (pushes_heap m begins).trans (ih _ _ _)
  | platform c heap next ih =>
    have begins : h.Grows (heap.record c) := grows.begins.trans (heap.grows_record c)
    simp only [continueNative]
    split
    · exact (pushes_heap m begins).trans (ih _ _ _)
    · exact .none begins rfl rfl rfl fun _ => trivial

theorem pushes_runNative (host : Host) (m : Machine) (g : Value) (action : Action (List Value)) :
    Pushes m (runNative host m g action) :=
  pushes_continueNative host g { m with heap := default } _ (action.grows m.heap)

/-! ## Functions of the language -/

theorem grows_bindParams (ps : List LocalVar) (args : List Value) (h : Heap) (slots : Array Value)
    (cells : Array Nat) : h.Grows (bindParams ps args h slots cells).1 := by
  induction ps generalizing args h slots cells with
  | nil => exact .refl h
  | cons p ps ih =>
    cases p with
    | slot i => exact ih _ _ _ _
    | cell i => exact (h.grows_newCell _).trans (ih _ _ _ _)

/-- Whatever a machine does before, it goes on when it enters a function. -/
theorem goesOn_enterClosure (m : Machine) (r : Nat) (args : List Value) : (m.enterClosure r args).GoesOn := by
  unfold enterClosure
  simp only []
  split
  · rename_i full
    by_cases handling : isHandling m.stack = true
    · rw [if_pos handling]
      exact ⟨rfl, .inr ⟨by simpa using (Bool.and_eq_true_iff.1 full).1, handling⟩⟩
    · rw [if_neg handling]
      trivial
  · split
    · trivial
    · trivial

theorem pushes_enterClosure (m : Machine) (r : Nat) (args : List Value) :
    Pushes m (m.enterClosure r args) := by
  have goes := goesOn_enterClosure m r args
  revert goes
  unfold enterClosure
  simp only []
  split
  · exact fun goes => .none (.refl _) rfl rfl rfl fun _ => goes
  · split
    · exact fun goes => .none (.refl _) rfl rfl rfl fun _ => goes
    · exact fun goes => .none (grows_bindParams _ _ _ _ _) rfl rfl rfl fun _ => goes

/-! ## Coroutines -/

theorem moves_resume (m : Machine) (t : Nat) (args : List Value) (isWrap : Bool) :
    Moves m (m.resume t args isWrap) := by
  have refused : ∀ message : String, Moves m
      (if isWrap then m.raiseText (levelText 1 m.stack ++ message.toUTF8)
      else { m with focus := .give [.bool false, .text message] }) := by
    intro message
    cases isWrap with
    | false => exact .pushes (pushes_focus _ trivial)
    | true => exact .pushes (pushes_focus _ trivial)
  unfold resume
  simp only []
  split
  · exact refused _
  · exact refused _
  · exact refused _
  · split
    · exact refused _
    · exact .resumes (.refl _) (m.resumer isWrap) rfl rfl [] rfl (by simp) trivial
  · split
    · exact refused _
    · exact .resumes (.refl _) (m.resumer isWrap) rfl rfl [] rfl (by simp) trivial

theorem moves_yield (m : Machine) (args : List Value) : Moves m (m.yield args) := by
  unfold yield
  split
  · exact .pushes (pushes_raise _ _)
  · rename_i free
    split
    · exact .pushes (pushes_focus _ trivial)
    · rename_i r rs waiting
      exact .leaves ⟨.inl (by simpa using free), .refl _, ⟨r, waiting, rfl, [], rfl, by simp⟩, trivial⟩

theorem moves_runCoroutine (host : Host) (m : Machine) (f : CoroutineFunction) (args : List Value) :
    Moves m (m.runCoroutine host f args) := by
  have native : ∀ action, Moves m (m.runNative host (.builtin (.coroutine f)) action) := fun action =>
    .pushes (pushes_runNative host m _ action)
  have gives : ∀ vs, Moves m { m with focus := .give vs } := fun vs =>
    .pushes (pushes_focus _ trivial)
  have changes : ∀ threads vs, Moves m { m with threads, focus := .give vs } := fun threads vs =>
    .pushes (.none (.refl _) rfl rfl rfl fun _ => trivial)
  have closes : ∀ t action, Moves m (runNative host { m with threads := m.threads.setIfInBounds t .dead }
      (.builtin (.coroutine f)) action) := fun t action =>
    .pushes ((pushes_threads m _).trans (pushes_runNative host _ _ action))
  -- Only resuming and yielding change which coroutine runs; the others give results or fail.
  cases f with
  | create =>
    simp only [runCoroutine]
    split
    · split
      · exact changes _ _
      · exact native _
    · exact native _
  | wrap =>
    simp only [runCoroutine]
    split
    · split
      · exact changes _ _
      · exact native _
    · exact native _
  | resume =>
    simp only [runCoroutine]
    split
    · exact moves_resume m _ _ _
    · exact native _
  | yield => exact moves_yield m args
  | isyieldable => exact gives _
  | running => exact gives _
  | status =>
    simp only [runCoroutine]
    split
    · exact gives _
    · exact native _
  | close =>
    simp only [runCoroutine]
    split
    · split
      · exact closes _ _
      · exact closes _ _
      · exact changes _ _
      · exact changes _ _
      · exact native _
    · exact native _

/-! ## Entering -/

theorem pushes_raiseLevel (m : Machine) (v : Value) (level : Int64) : Pushes m (m.raiseLevel v level) := by
  unfold raiseLevel
  split
  · split
    · exact pushes_raiseText _ _
    · exact pushes_raise _ _
  · exact pushes_raise _ _

theorem pushes_protectedCall (m : Machine) (f : Value) (args : List Value) (handler? : Option Value) :
    Pushes m (m.protectedCall f args handler?) := by
  unfold protectedCall
  refine (pushes_frame m (f := .protect handler? m.depth m.room) rfl).trans (pushes_nest fun depth => ?_)
  exact .none (.refl _) rfl rfl rfl fun _ => trivial

theorem moves_enterBuiltin (host : Host) (m : Machine) (b : Builtin) (args : List Value) :
    Moves m (m.enterBuiltin host b args) := by
  have native : ∀ action, Moves m (m.runNative host (.builtin b) action) := fun action =>
    .pushes (pushes_runNative host m _ action)
  unfold enterBuiltin
  simp only []
  split
  · exact moves_runCoroutine host m _ args
  · split
    · exact .pushes (pushes_raiseLevel m _ _)
    · exact .pushes (pushes_raiseLevel m _ _)
    · exact native _
  · split
    · exact .pushes (pushes_protectedCall m _ _ _)
    · exact native _
  · split
    · split
      · exact .pushes (pushes_protectedCall m _ _ _)
      · exact native _
    · exact native _
  · exact native _

theorem moves_enter (host : Host) (fuel : Nat) (m : Machine) (f : Value) (args : List Value) :
    Moves m (enter host fuel m f args) := by
  induction fuel generalizing f args with
  | zero => exact .pushes (pushes_raiseText _ _)
  | succ fuel ih =>
    simp only [enter]
    split
    · exact .pushes (pushes_enterClosure m _ _)
    · exact moves_enterBuiltin host m _ _
    · exact moves_resume m _ _ _
    · exact .pushes (pushes_runNative host m _ _)
    · split
      · exact .pushes (pushes_raiseText _ _)
      · exact ih _ _

end Machine

end VaultConsole.Lua
