import VaultConsole.Proofs.Machine.Steps

/-!
# The stack of one coroutine

While other coroutines run, the stack of a coroutine waits with the resumer of the one above it. `StackAt`
finds the stack of the coroutine that has certain resumers below it, and `step_level` lists everything that
one step can do to it (`Change`), wherever the machine is at the time. All further facts about runs rest on
this list.
-/

namespace VaultConsole.Lua

namespace Machine

variable {R : List Resumer} {m m' : Machine} {S S' : List Frame}

/-- The stack of the coroutine with some resumers below it: it runs, or waits for another one. -/
inductive StackAt (R : List Resumer) (m : Machine) (S : List Frame) : Prop where
  | running (resumers : m.resumers = R) (stack : m.stack = S)
  | waiting (ups : List Resumer) (r : Resumer) (resumers : m.resumers = ups ++ r :: R)
      (stack : r.stack = S)

theorem StackAt.length_le (h : StackAt R m S) : R.length ≤ m.resumers.length := by
  cases h with
  | running resumers => exact Nat.le_of_eq (congrArg List.length resumers).symm
  | waiting ups r resumers =>
    rw [resumers, List.length_append, List.length_cons]
    omega

/-- The stack of the coroutine that runs is that of the machine. -/
theorem StackAt.stack_eq (h : StackAt R m S) (running : m.resumers = R) : m.stack = S := by
  cases h with
  | running _ stack => exact stack
  | waiting ups r resumers =>
    have lengths := congrArg List.length (running.symm.trans resumers)
    rw [List.length_append, List.length_cons] at lengths
    omega

theorem StackAt.unique (h : StackAt R m S) (h' : StackAt R m S') : S = S' := by
  cases h with
  | running resumers stack => exact stack.symm.trans (h'.stack_eq resumers)
  | waiting ups r resumers stack =>
    cases h' with
    | running resumers' stack' =>
      exact ((StackAt.waiting ups r resumers stack).stack_eq resumers').symm.trans stack'
    | waiting ups' r' resumers' stack' =>
      have same := List.append_inj_right' (resumers.symm.trans resumers') rfl
      rw [← stack, ← stack', (List.cons.inj same).1]

/-- What a step does to the stack of a coroutine. -/
inductive Change (R : List Resumer) (m m' : Machine) (S S' : List Frame) : Prop where
  /-- Another coroutine runs; where it gives back the turn, frames may be pushed. -/
  | waits (waiting : m.resumers ≠ R) (pre : List Frame) (stack : S' = pre ++ S)
      (plain : ∀ f ∈ pre, f.isPlain) (focus : m'.resumers = R → m'.GoesOn)
      (alive : m'.hasEnded → m.hasEnded)
  /-- The running function goes on. -/
  | proceeds (running : m.resumers = R) (inner : m.focus.isInner) (given rest pre : List Frame)
      (before : S = given ++ rest) (bounded : ∀ f ∈ given, f.isBoundary = false)
      (after : S' = pre ++ rest) (plain : ∀ f ∈ pre, f.isPlain) (focus : m'.GoesOn)
  /-- Results are given to the frame on top. -/
  | gives (running : m.resumers = R) (vs : List Value) (f : Frame) (rest pre : List Frame)
      (given : m.focus = .give vs) (before : S = f :: rest) (ordinary : f.isPlain)
      (after : S' = pre ++ rest) (plain : ∀ f ∈ pre, f.isPlain) (focus : m'.GoesOn)
  /-- A handler gives its results, and the first of them goes on in place of the error. -/
  | handled (running : m.resumers = R) (vs : List Value) (depth room : Nat) (given : m.focus = .give vs)
      (before : S = .handled depth room :: S') (stays : m'.resumers = R)
      (focus : m'.focus = .unwind (vs.headD .nil))
  /-- A variable is closed, and the error that passed it goes on. -/
  | closed (running : m.resumers = R) (vs : List Value) (act : Activation) (line : Nat) (e : Value)
      (depth room : Nat) (given : m.focus = .give vs)
      (before : S = .closed act line (.unwind e) depth room :: S') (stays : m'.resumers = R)
      (focus : m'.focus = .unwind e)
  /-- An error is raised that is not handled. -/
  | unhandled (running : m.resumers = R) (e : Value) (raised : m.focus = .raise e) (after : S' = S)
      (stays : m'.resumers = R) (focus : m'.focus = .unwind e)
      (reason : e = memoryError ∨ ∀ h, handler? S ≠ some (some h))
  /-- The handler of an error is called. -/
  | handles (running : m.resumers = R) (e h : Value) (raised : m.focus = .raise e)
      (found : handler? S = some (some h)) (after : S' = .handled m.depth m.room :: S)
      (stays : m'.resumers = R)
      (calls : m' = nest { m with focus := .done, stack := .handled m.depth m.room :: S } ByteArray.empty
        fun m => { m with focus := .enter h [e] })
  /-- An error is caught. -/
  | catches (running : m.resumers = R) (e : Value) (passed : List Frame) (h : Option Value)
      (depth room : Nat) (goes : m.focus = .unwind e)
      (before : S = passed ++ .protect h depth room :: S') (passes : ∀ f ∈ passed, f.isPassed)
      (catching : m' = { m with
        focus := .give [.bool false, e], stack := S', depth := depth, room := room })
  /-- A variable is closed on the way of an error. -/
  | closes (running : m.resumers = R) (e : Value) (passed rest : List Frame) (v : Value) (line : Nat)
      (goes : m.focus = .unwind e) (before : S = passed ++ .closing v line :: rest)
      (passes : ∀ f ∈ passed, f.isPassed) (after : S' = .closed m.act line (.unwind e) m.depth m.room :: rest)
      (stays : m'.resumers = R) (focus : m'.GoesOn)
  /-- The machine ends, or has ended. -/
  | ended (running : m.resumers = R) (after : S' = S) (ended : m'.hasEnded)
      (reason : m.hasEnded ∨ R = [] ∧ (S = [] ∨ handler? S = none))

/-! ## The coroutine that runs -/

theorem nest_enter (m : Machine) (place : ByteArray) (f : Value) (args : List Value) :
    (nest m place fun m => { m with focus := .enter f args }).stack = m.stack ∧
      (nest m place fun m => { m with focus := .enter f args }).resumers = m.resumers ∧
      (nest m place fun m => { m with focus := .enter f args }).GoesOn := by
  unfold nest
  simp only []
  split
  · exact ⟨rfl, rfl, trivial⟩
  · split
    · rename_i deep
      exact ⟨rfl, rfl, rfl, .inl deep⟩
    · exact ⟨rfl, rfl, trivial⟩

/-- Frames that an error passes do not matter for what handles it. -/
theorem handler?_append {passed : List Frame} (passes : ∀ f ∈ passed, f.isPassed) (rest : List Frame) :
    handler? (passed ++ rest) = handler? rest := by
  induction passed with
  | nil => rfl
  | cons f fs ih =>
    have others := ih fun g member => passes g (List.mem_cons_of_mem _ member)
    have top := passes f List.mem_cons_self
    cases f with
    | protect h depth room => cases top
    | _ => exact others

/-- Frames of the running function do not matter for whether it can be suspended, or for what handles an error. -/
theorem innermost_append {given : List Frame} (inner : ∀ f ∈ given, f.isBoundary = false) (rest : List Frame) :
    isYieldable (given ++ rest) = isYieldable rest ∧ handler? (given ++ rest) = handler? rest := by
  induction given with
  | nil => exact ⟨rfl, rfl⟩
  | cons f fs ih =>
    have others := ih fun g member => inner g (List.mem_cons_of_mem _ member)
    have top := inner f List.mem_cons_self
    cases f with
    | caller | operation | native | protect | handled | closed => cases top
    | _ => exact others

/-- A step of the coroutine that runs changes its stack, or leaves the coroutine. -/
def ChangesOrLeaves (host : Host) (m : Machine) : Prop :=
  (∃ S', StackAt m.resumers (m.step host) S' ∧ Change m.resumers m (m.step host) m.stack S') ∨
    Leaves m (m.step host)

/-- Inside a function only its own frames are worked on. -/
theorem changes_of_isInner (host : Host) (inner : m.focus.isInner = true) : ChangesOrLeaves host m := by
  obtain ⟨given, rest, split, bounded, moves⟩ := step_proceeds host m inner
  have goes : GoesOn { m with stack := rest } := by
    obtain ⟨focus, act, stack, heap, depth, room, thread, threads, resumers⟩ := m
    cases focus with
    | unwind e => cases inner
    | finished vs => cases inner
    | failed e => cases inner
    | _ => trivial
  cases moves with
  | pushes h =>
    obtain ⟨pre, stack, plain⟩ := h.stack
    exact .inl ⟨pre ++ rest, .running h.resumers stack,
      .proceeds rfl inner given rest pre split bounded rfl plain (h.focus goes)⟩
  | resumes heap r resumers thread pre stack plain focus =>
    -- The coroutine waits from now on, with what was pushed in the last moment.
    exact .inl ⟨pre ++ rest, .waiting [] r resumers stack,
      .proceeds rfl inner given rest pre split bounded rfl plain focus⟩
  | leaves h =>
    obtain ⟨yields, handles⟩ := innermost_append bounded rest
    refine .inr ⟨?_, h.heap, h.resumer, h.focus⟩
    rw [split, yields, handles]
    exact h.free

/-- Results are given to the frame on top, and end the coroutine where there is none. -/
theorem changes_of_give (host : Host) {vs : List Value} (given : m.focus = .give vs) : ChangesOrLeaves host m := by
  obtain ⟨focus, act, stack, heap, depth, room, thread, threads, resumers⟩ := m
  obtain rfl : focus = .give vs := given
  cases stack with
  | nil =>
    cases resumers with
    | nil => exact .inl ⟨[], .running rfl rfl, .ended rfl rfl rfl (.inr ⟨rfl, .inl rfl⟩)⟩
    | cons r rs =>
      have left := leaves_endThread
        ⟨.done, act, [], heap, depth, room, thread, threads, r :: rs⟩ vs r rs rfl rfl
      exact .inr ⟨left.free, left.heap, left.resumer, left.focus⟩
  | cons f rest =>
    by_cases plain : f.isPlain = true
    · have pushes := pushes_give (m := ⟨.done, act, f :: rest, heap, depth, room, thread, threads,
        resumers⟩) host vs rfl rfl plain
      obtain ⟨pre, stack, plain'⟩ := pushes.stack
      exact .inl ⟨pre ++ rest, .running pushes.resumers stack,
        .gives rfl vs f rest pre rfl rfl plain rfl plain' (pushes.focus trivial)⟩
    · -- A frame that an error has pushed is taken away, and the error goes on.
      cases f with
      | handled depth' room' =>
        exact .inl ⟨rest, .running rfl rfl, .handled rfl vs depth' room' rfl rfl rfl rfl⟩
      | closed act' line after depth' room' =>
        cases after with
        | unwind e =>
          exact .inl ⟨rest, .running rfl rfl, .closed rfl vs act' line e depth' room' rfl rfl rfl rfl⟩
        | _ => exact absurd rfl plain
      | _ => exact absurd rfl plain

/-- An error that is raised is handled, or goes on as it is. -/
theorem changes_of_raise (host : Host) {e : Value} (raised : m.focus = .raise e) : ChangesOrLeaves host m := by
  obtain ⟨focus, act, stack, heap, depth, room, thread, threads, resumers⟩ := m
  obtain rfl : focus = .raise e := raised
  obtain ⟨same, reason⟩ | ⟨h, found, same⟩ :=
    handle_cases ⟨.done, act, stack, heap, depth, room, thread, threads, resumers⟩ e
  · have result : step host ⟨.raise e, act, stack, heap, depth, room, thread, threads, resumers⟩ =
        ⟨.unwind e, act, stack, heap, depth, room, thread, threads, resumers⟩ := same
    rw [ChangesOrLeaves, result]
    exact .inl ⟨stack, .running rfl rfl, .unhandled rfl e rfl rfl rfl rfl reason⟩
  · obtain ⟨top, below, -⟩ := nest_enter ⟨.done, act, .handled depth room :: stack, heap, depth,
      room, thread, threads, resumers⟩ ByteArray.empty h [e]
    rw [← same] at top below
    exact .inl ⟨_, .running below top, .handles rfl e h rfl found rfl below same⟩

/-- An error that goes on is caught, or closes a variable, or it ends the outermost coroutine and leaves any
other one. -/
theorem changes_of_unwind (host : Host) {e : Value} (goes : m.focus = .unwind e) : ChangesOrLeaves host m := by
  obtain ⟨focus, act, stack, heap, depth, room, thread, threads, resumers⟩ := m
  obtain rfl : focus = .unwind e := goes
  cases caught : handler? stack with
  | some found =>
    have result : step host ⟨.unwind e, act, stack, heap, depth, room, thread, threads, resumers⟩ =
        unwindTo ⟨.done, act, stack, heap, depth, room, thread, threads, resumers⟩ e stack :=
      unwind_of_caught host e caught
    obtain ⟨passed, rest, split, passes, ⟨empty, -⟩ | ⟨h, depth', room', fs, whole, same⟩ |
        ⟨v, line, fs, whole, same⟩⟩ :=
      unwindTo_cases ⟨.done, act, stack, heap, depth, room, thread, threads, resumers⟩ e stack
    · -- Something catches the error, so it does not pass all frames.
      rw [split, handler?_append passes, empty] at caught
      cases caught
    · rw [ChangesOrLeaves, result, same]
      subst whole
      exact .inl ⟨fs, .running rfl rfl, .catches rfl e passed h depth' room' rfl split passes rfl⟩
    · obtain ⟨top, below, goes⟩ := nest_enter ⟨.done, default,
        .closed act line (.unwind e) depth room :: fs, heap, depth, room, thread, threads,
        resumers⟩ ByteArray.empty (heap.metamethod v .close) [v, e]
      rw [ChangesOrLeaves, result, same]
      subst whole
      exact .inl ⟨_, .running below top, .closes rfl e passed fs v line rfl split passes rfl below goes⟩
  | none =>
    cases resumers with
    | nil =>
      have result : step host ⟨.unwind e, act, stack, heap, depth, room, thread, threads, []⟩ =
          ⟨.failed e, act, stack, heap, depth, room, thread, threads, []⟩ :=
        unwind_outermost host e caught rfl
      rw [ChangesOrLeaves, result]
      exact .inl ⟨stack, .running rfl rfl, .ended rfl rfl rfl (.inr ⟨rfl, .inr caught⟩)⟩
    | cons r rs =>
      have left := leaves_unwind host ⟨.done, act, stack, heap, depth, room, thread, threads,
        r :: rs⟩ e caught r rs rfl
      exact .inr ⟨left.free, left.heap, left.resumer, left.focus⟩

/-- Every step of the coroutine that runs changes its stack, or leaves the coroutine. -/
theorem step_running (host : Host) (m : Machine) : ChangesOrLeaves host m := by
  by_cases inner : m.focus.isInner = true
  · exact changes_of_isInner host inner
  · cases focus : m.focus with
    | give vs => exact changes_of_give host focus
    | raise e => exact changes_of_raise host focus
    | unwind e => exact changes_of_unwind host focus
    | finished vs =>
      have ended : m.hasEnded = true := by rw [hasEnded, focus]
      rw [ChangesOrLeaves, step_ended host ended]
      exact .inl ⟨m.stack, .running rfl rfl, .ended rfl rfl ended (.inl ended)⟩
    | failed e =>
      have ended : m.hasEnded = true := by rw [hasEnded, focus]
      rw [ChangesOrLeaves, step_ended host ended]
      exact .inl ⟨m.stack, .running rfl rfl, .ended rfl rfl ended (.inl ended)⟩
    | _ =>
      rw [focus] at inner
      exact absurd rfl inner

/-! ## Any coroutine -/

/-- What goes on has not ended. -/
theorem not_hasEnded_of_goesOn (h : m.GoesOn) : m.hasEnded = false := by
  obtain ⟨focus, act, stack, heap, depth, room, thread, threads, resumers⟩ := m
  cases focus with
  | finished vs => cases h
  | failed e => cases h
  | _ => rfl

/-- A step ends a machine only in a change that says so. -/
theorem Change.hasEnded_of (change : Change R m m' S S') (ended : m'.hasEnded) :
    m.hasEnded ∨ m.resumers = R ∧ R = [] ∧ (S = [] ∨ handler? S = none) := by
  have goes : m'.GoesOn → False := by
    intro goes
    rw [not_hasEnded_of_goesOn goes] at ended
    cases ended
  have unwinds : ∀ e, m'.focus = .unwind e → False := by
    intro e focus
    rw [hasEnded, focus] at ended
    cases ended
  -- No change but the last one ends a machine that has not ended.
  cases change with
  | waits waiting pre stack plain focus alive => exact .inl (alive ended)
  | proceeds running inner given rest pre before bounded after plain focus => exact (goes focus).elim
  | gives running vs f rest pre given before ordinary after plain focus => exact (goes focus).elim
  | handled running vs depth room given before stays focus => exact (unwinds _ focus).elim
  | closed running vs act line e depth room given before stays focus => exact (unwinds _ focus).elim
  | unhandled running e raised after stays focus => exact (unwinds _ focus).elim
  | handles running e h raised found after stays calls =>
    rw [calls] at goes
    exact (goes (nest_enter _ _ _ _).2.2).elim
  | catches running e passed h depth room goes' before passes catching =>
    rw [catching] at ended
    cases ended
  | closes running e passed rest v line goes' before passes after stays focus => exact (goes focus).elim
  | ended running after _ reason =>
    obtain already | reason := reason
    · exact .inl already
    · exact .inr ⟨running, reason⟩

/-- Everything that a step can do to the stack of a coroutine. -/
theorem step_level (host : Host) (h : StackAt R m S) :
    (∃ S', StackAt R (m.step host) S' ∧ Change R m (m.step host) S S') ∨ (m.resumers = R ∧ Leaves m (m.step host)) := by
  cases h with
  | running resumers stack =>
    subst resumers stack
    obtain changed | left := step_running host m
    · exact .inl changed
    · exact .inr ⟨rfl, left⟩
  | waiting ups r resumers stack =>
    -- The coroutine that runs is another one: it goes on, resumes a further one or gives back the turn.
    have elsewhere : m.resumers ≠ R := by
      intro same
      have lengths := congrArg List.length (same.symm.trans resumers)
      rw [List.length_append, List.length_cons] at lengths
      omega
    have stays : ∀ ups', (m.step host).resumers = ups' ++ r :: R →
        ((m.step host).hasEnded → m.hasEnded) →
        ∃ S', StackAt R (m.step host) S' ∧ Change R m (m.step host) S S' := by
      intro ups' later alive
      refine ⟨S, .waiting ups' r later stack, .waits elsewhere [] rfl (by simp) ?_ alive⟩
      intro same
      have lengths := congrArg List.length (same.symm.trans later)
      rw [List.length_append, List.length_cons] at lengths
      omega
    obtain ⟨S', at', change⟩ | left := step_running host m
    · have alive : (m.step host).hasEnded → m.hasEnded := by
        intro ended
        obtain already | ⟨-, outermost, -⟩ := change.hasEnded_of ended
        · exact already
        · rw [resumers] at outermost
          simp at outermost
      cases at' with
      | running later => exact .inl (stays ups (later.trans resumers) alive)
      | waiting ups' r' later =>
        refine .inl (stays (ups' ++ r' :: ups) ?_ alive)
        rw [later, resumers]
        simp
    · have alive : (m.step host).hasEnded → m.hasEnded := by
        intro ended
        rw [not_hasEnded_of_goesOn left.focus] at ended
        cases ended
      obtain ⟨r', last, -, pre, pushed, plain⟩ := left.resumer
      rw [resumers] at last
      cases ups with
      | nil =>
        obtain ⟨same, below⟩ := List.cons.inj last
        refine .inl ⟨pre ++ S, .running below.symm ?_,
          .waits elsewhere pre rfl plain (fun _ => left.focus) alive⟩
        rw [pushed, ← same, stack]
      | cons u ups => exact .inl (stays ups (List.cons.inj last).2.symm alive)

end Machine

end VaultConsole.Lua
