import VaultConsole.Proofs.Machine.Operations

/-!
# What one step does

A step of a running function proceeds (`step_proceeds`): it gives up frames of that function at most, and
pushes further ones. Results take away the boundary on top of the stack (`pushes_give`), errors are handled or
go on to where they are caught (`handle_cases`, `unwindTo_cases`), and nothing happens after the end
(`step_ended`). In every case the heap only grows (`step_grows`), also in runs of any length (`run_grows`).
-/

namespace VaultConsole.Lua

/-- Whether the running function goes on by itself: neither are results given to a boundary, nor is there
an error, nor has the machine ended. -/
def Focus.isInner : Focus → Bool
  | .give _ => false
  | .raise _ => false
  | .unwind _ => false
  | .finished _ => false
  | .failed _ => false
  | _ => true

/-- Whether an error that goes on passes a frame without stopping there. -/
def Frame.isPassed : Frame → Bool
  | .protect .. => false
  | .closing .. => false
  | _ => true

namespace Machine

variable {m m' : Machine}

/-! ## The running function -/

/-- A frame of the running function that has got what it waited for. -/
theorem Proceeds.popped {f : Frame} {rest : List Frame} (stack : m.stack = f :: rest)
    (inner : f.isBoundary = false) (h : Proceeds { m with focus := .done, stack := rest } m') :
    Proceeds m m' := by
  obtain ⟨given, left, split, plain, moves⟩ := h
  refine ⟨f :: given, left, ?_, ?_, ?_⟩
  · rw [stack, List.cons_append]
    exact congrArg _ split
  · intro g member
    obtain rfl | member := List.mem_cons.1 member
    · exact inner
    · exact plain g member
  · exact (pushes_focus { m with stack := left } (by trivial)).moves moves

/-- What is given to the frame on top stops there at a boundary, and is taken by a frame of the running function. -/
theorem Proceeds.onTop {f : Frame} {rest : List Frame} (stack : m.stack = f :: rest)
    (stops : f.isBoundary = true → Proceeds m m')
    (goes : f.isBoundary = false → Proceeds { m with focus := .done, stack := rest } m') : Proceeds m m' := by
  cases boundary : f.isBoundary with
  | true => exact stops boundary
  | false => exact .popped stack boundary (goes boundary)

/-- What a machine did before does not matter for how it proceeds. -/
theorem Proceeds.after (h : Proceeds { m with focus := .done } m') : Proceeds m m' := by
  obtain ⟨given, rest, split, inner, moves⟩ := h
  exact ⟨given, rest, split, inner, (pushes_focus { m with stack := rest } (by trivial)).moves moves⟩

theorem pushes_onValue (m : Machine) (v : Value) {f : Frame} (inner : f.isBoundary = false) :
    Pushes m (m.onValue v f) := by
  -- One case for each frame that waits for a value, in the order of `onValue`.
  unfold onValue
  split
  · split
    · exact pushes_index m _ _ _ _
    · exact pushes_evalUnder m rfl _
  · exact pushes_index m _ _ _ _
  · exact pushes_unary m _ _ _ _
  · split
    · exact pushes_binary m _ _ _ _ _ _
    · exact pushes_evalUnder m rfl _
  · exact pushes_binary m _ _ _ _ _ _
  · split
    · exact pushes_focus m trivial
    · exact pushes_giveValue m _
  · split
    · exact pushes_giveValue m _
    · exact pushes_focus m trivial
  · exact .one _ rfl (.refl _) rfl rfl rfl fun _ => trivial
  · exact pushes_fetchMethod m _ _ _ _ _ _ _
  · exact .one _ rfl (.refl _) rfl rfl rfl fun _ => trivial
  · exact pushes_focus m trivial
  · exact pushes_buildTable m _
  · exact pushes_evalUnder m rfl _
  · exact pushes_storeEntry m _ _ _ _
  · exact pushes_focus m trivial
  · split
    · exact .one _ rfl (.refl _) rfl rfl rfl fun _ => trivial
    · exact pushes_focus m trivial
  · refine pushes_focus m ?_
    split
    · trivial
    · trivial
  · split
    · exact pushes_evalTargets m _ _ _ _
    · exact pushes_evalUnder m rfl _
  · exact pushes_evalTargets m _ _ _ _
  · exact pushes_assign m _ _ _
  · exact (pushes_declareLocal m _ _).trans (pushes_focus _ trivial)
  · exact .one _ (Frame.isPlain_of_not_isBoundary inner) (.refl _) rfl rfl rfl fun _ => trivial

theorem proceeds_onValues (host : Host) (m : Machine) (vs : List Value) {f : Frame}
    (inner : f.isBoundary = false) : Proceeds m (m.onValues host vs f) := by
  -- One case for each frame that waits for values, in the order of `onValues`.
  unfold onValues
  split
  · exact (pushes_focus m (by trivial)).proceeds
  · exact proceeds_call host m _ _ _ _ _
  · exact (pushes_operate m _ _ _ _ _).proceeds
  · exact (pushes_finishTable m _ _).proceeds
  · exact (pushes_focus m (by trivial)).proceeds
  · exact ((pushes_declareLocals m _ _).trans (pushes_focus _ (by trivial))).proceeds
  · rename_i vars i name line rest
    refine ((pushes_declareLocals m vars vs).trans ?_).proceeds
    simp only []
    split
    · exact pushes_raiseText _ _
    · split
      · exact .one _ rfl (.refl _) rfl rfl rfl fun _ => trivial
      · exact pushes_focus _ trivial
  · exact (pushes_storeAll m _ _).proceeds
  · exact (pushes_startNumeric m _ _ _ _ _ _).proceeds
  · rename_i vars body line
    simp only []
    split
    · exact (pushes_raiseText m _).proceeds
    · by_cases closes : (vs.getD 3 .nil).isTruthy = true
      · simp only [closes, if_true]
        refine Proceeds.under (f := .closing (vs.getD 3 .nil) line) rfl ?_
        exact proceeds_iterate host _ _ _ _ _ _ _
      · simp only [closes]
        exact proceeds_iterate host m _ _ _ _ _ _
  · split
    · exact (pushes_focus m (by trivial)).proceeds
    · refine (Pushes.trans ?_ (pushes_declareLocals _ _ _)).proceeds
      exact .one _ rfl (.refl _) rfl rfl rfl fun _ => trivial
  · refine Pushes.proceeds ?_
    exact .one _ (Frame.isPlain_of_not_isBoundary inner) (.refl _) rfl rfl rfl fun _ => trivial

theorem proceeds_onDone (host : Host) (m : Machine) {f : Frame} (inner : f.isBoundary = false) :
    Proceeds m (m.onDone host f) := by
  unfold onDone
  split
  · exact (pushes_execNext m _ _).proceeds
  · exact (pushes_evalUnder m rfl _).proceeds
  · refine Pushes.proceeds ?_
    exact .one _ rfl (.refl _) rfl rfl rfl fun _ => trivial
  · exact (pushes_nextNumeric m _ _ _).proceeds
  · exact proceeds_iterate host m _ _ _ _ _ _
  · exact (pushes_storeAll m _ _).proceeds
  · exact (pushes_closeVariable m _ _ _ rfl).proceeds
  · exact (pushes_buildTable m _).proceeds
  · rw [if_neg (by simp [inner])]
    refine Pushes.proceeds ?_
    exact .one _ (Frame.isPlain_of_not_isBoundary inner) (.refl _) rfl rfl rfl fun _ => trivial

/-- At a boundary neither a value nor values nor the end of a statement are waited for. -/
theorem onValue_boundary (m : Machine) (v : Value) {f : Frame} (boundary : f.isBoundary = true) :
    m.onValue v f = { m with focus := .values [v], stack := f :: m.stack } := by
  cases f with
  | caller => rfl
  | operation => rfl
  | native => rfl
  | protect => rfl
  | handled => rfl
  | closed => rfl
  | _ => cases boundary

theorem onValues_boundary (host : Host) (m : Machine) (vs : List Value) {f : Frame}
    (boundary : f.isBoundary = true) :
    m.onValues host vs f = { m with focus := .value (vs.headD .nil), stack := f :: m.stack } := by
  cases f with
  | caller => rfl
  | operation => rfl
  | native => rfl
  | protect => rfl
  | handled => rfl
  | closed => rfl
  | _ => cases boundary

theorem onDone_boundary (host : Host) (m : Machine) {f : Frame} (boundary : f.isBoundary = true) :
    m.onDone host f = { m with focus := .give [], stack := f :: m.stack } := by
  cases f with
  | caller => rfl
  | operation => rfl
  | native => rfl
  | protect => rfl
  | handled => rfl
  | closed => rfl
  | _ => cases boundary

/-! ## Leaving scopes -/

/-- One frame of the running function less. -/
theorem Proceeds.drop {f : Frame} {fs : List Frame} (inner : f.isBoundary = false)
    (h : Proceeds { m with stack := fs } m') : Proceeds { m with stack := f :: fs } m' := by
  obtain ⟨given, rest, split, plain, moves⟩ := h
  refine ⟨f :: given, rest, congrArg _ split, ?_, moves⟩
  intro g member
  obtain rfl | member := List.mem_cons.1 member
  · exact inner
  · exact plain g member

/-- What goes up the stack stops at a frame with a boundary, and otherwise gives the frame up. -/
theorem Proceeds.ascend {m : Machine} {f : Frame} {fs : List Frame} {stopped above : Machine}
    (stops : Proceeds { m with stack := f :: fs } stopped) (goes : Proceeds { m with stack := fs } above) :
    Proceeds { m with stack := f :: fs } (if f.isBoundary then stopped else above) := by
  by_cases boundary : f.isBoundary = true
  · rw [if_pos boundary]
    exact stops
  · rw [if_neg boundary]
    exact .drop (by simpa using boundary) goes

theorem proceeds_returnFrom (m : Machine) (vs : List Value) (stack : List Frame) :
    Proceeds { m with stack } (m.returnFrom vs stack) := by
  induction stack with
  | nil => exact (pushes_focus _ (by trivial)).proceeds
  | cons f fs ih =>
    unfold returnFrom
    split
    · rename_i empty
      cases empty
    · rename_i v line fs' whole
      cases whole
      exact .drop rfl (pushes_closeVariable { m with stack := fs } v .nil line rfl).proceeds
    · rename_i f' fs' _ whole
      cases whole
      exact .ascend (pushes_focus { m with stack := f :: fs } (by trivial)).proceeds ih

theorem proceeds_leaveLoop (m : Machine) (stack : List Frame) :
    Proceeds { m with stack } (m.leaveLoop stack) := by
  have ends : ∀ fs, Proceeds { m with stack := fs } { m with focus := .done, stack := fs } := fun fs =>
    (pushes_focus _ (by trivial)).proceeds
  -- Up the stack: a variable is closed, a loop is left, and any other frame is given up.
  induction stack with
  | nil => exact ends []
  | cons f fs ih =>
    unfold leaveLoop
    split
    · rename_i empty
      cases empty
    · rename_i v line fs' whole
      cases whole
      exact .drop rfl (pushes_closeVariable { m with stack := fs } v .nil line rfl).proceeds
    · rename_i whole
      cases whole
      exact .drop rfl (ends fs)
    · rename_i whole
      cases whole
      exact .drop rfl (ends fs)
    · rename_i whole
      cases whole
      exact .drop rfl (ends fs)
    · rename_i whole
      cases whole
      exact .drop rfl (ends fs)
    · rename_i whole
      cases whole
      exact .ascend (ends (f :: fs)) ih

theorem proceeds_goTo (m : Machine) (label : ByteArray) (stack : List Frame) :
    Proceeds { m with stack } (m.goTo label stack) := by
  have ends : ∀ fs, Proceeds { m with stack := fs } { m with focus := .done, stack := fs } := fun fs =>
    (pushes_focus _ (by trivial)).proceeds
  induction stack with
  | nil => exact ends []
  | cons f fs ih =>
    unfold goTo
    split
    · rename_i empty
      cases empty
    · rename_i v line fs' whole
      cases whole
      exact .drop rfl (pushes_closeVariable { m with stack := fs } v .nil line rfl).proceeds
    · rename_i all rest fs' whole
      cases whole
      split
      · rename_i steps _
        refine .drop rfl (Pushes.proceeds ?_)
        exact .one (.block all steps) rfl (.refl _) rfl rfl rfl fun _ => trivial
      · exact .drop rfl ih
    · rename_i whole
      cases whole
      exact .ascend (ends (f :: fs)) ih

/-- A step of the running function gives up frames of that function at most. -/
theorem step_proceeds (host : Host) (m : Machine) (inner : m.focus.isInner) : Proceeds m (m.step host) := by
  obtain ⟨focus, act, stack, heap, depth, room, thread, threads, resumers⟩ := m
  have empty : ∀ vs, Proceeds ⟨focus, act, [], heap, depth, room, thread, threads, resumers⟩
      ⟨.give vs, act, [], heap, depth, room, thread, threads, resumers⟩ := fun vs =>
    (pushes_focus _ (by trivial)).proceeds
  have stays : ∀ f fs focus', GoesOn ⟨focus', act, f :: fs, heap, depth, room, thread, threads, resumers⟩ →
      Proceeds ⟨focus, act, f :: fs, heap, depth, room, thread, threads, resumers⟩
        ⟨focus', act, f :: fs, heap, depth, room, thread, threads, resumers⟩ := fun f fs focus' goes =>
    (pushes_focus ⟨focus, act, f :: fs, heap, depth, room, thread, threads, resumers⟩ goes).proceeds
  have quiet : Pushes ⟨focus, act, stack, heap, depth, room, thread, threads, resumers⟩
      ⟨.done, act, stack, heap, depth, room, thread, threads, resumers⟩ := pushes_focus _ trivial
  cases focus with
  | value v =>
    cases stack with
    | nil => exact empty [v]
    | cons f stack =>
      refine .onTop rfl (fun boundary => ?_) fun inner => (pushes_onValue _ v inner).proceeds
      simp only [step, onValue_boundary _ v boundary]
      exact stays f stack _ trivial
  | values vs =>
    cases stack with
    | nil => exact empty vs
    | cons f stack =>
      refine .onTop rfl (fun boundary => ?_) fun inner => proceeds_onValues host _ vs inner
      simp only [step, onValues_boundary host _ vs boundary]
      exact stays f stack _ trivial
  | done =>
    cases stack with
    | nil => exact empty []
    | cons f stack =>
      refine .onTop rfl (fun boundary => ?_) fun inner => proceeds_onDone host _ inner
      simp only [step, onDone_boundary host _ boundary]
      exact stays f stack _ trivial
  | eval c => exact (quiet.trans (pushes_eval _ c)).proceeds
  | evalAll c => exact (quiet.trans (pushes_evalAll _ c)).proceeds
  | evalList done codes => exact (quiet.trans (pushes_evalList _ done codes)).proceeds
  | exec steps => exact (quiet.trans (pushes_exec _ steps)).proceeds
  | call f args line name want => exact .after (proceeds_call host _ f args line name want)
  | enter f args => exact (quiet.moves (moves_enter host maxDepth _ f args)).proceeds
  | «return» vs =>
    exact .after (proceeds_returnFrom ⟨.done, act, [], heap, depth, room, thread, threads, resumers⟩ vs stack)
  | leave =>
    exact .after (proceeds_leaveLoop ⟨.done, act, [], heap, depth, room, thread, threads, resumers⟩ stack)
  | goto label =>
    exact .after (proceeds_goTo ⟨.done, act, [], heap, depth, room, thread, threads, resumers⟩ label stack)
  | give vs => cases inner
  | raise e => cases inner
  | unwind e => cases inner
  | finished vs => cases inner
  | failed e => cases inner
  | gone => exact (Pushes.refl _).proceeds

/-! ## Results -/

/-- Results that are given to a frame which no error has pushed. -/
theorem pushes_give (host : Host) (vs : List Value) {f : Frame} {rest : List Frame}
    (focus : m.focus = .done) (stack : m.stack = f :: rest) (plain : f.isPlain) :
    Pushes { m with stack := rest } (m.give host vs) := by
  obtain ⟨focus', act, stack', heap, depth, room, thread, threads, resumers⟩ := m
  obtain rfl : focus' = .done := focus
  obtain rfl : stack' = f :: rest := stack
  -- Where a function goes on, its own state is put back first.
  have back : ∀ act' depth' room', Pushes ⟨.done, act, rest, heap, depth, room, thread, threads, resumers⟩
      ⟨.done, act', rest, heap, depth', room', thread, threads, resumers⟩ := fun act' depth' room' =>
    .none (.refl _) rfl rfl rfl fun _ => trivial
  cases f with
  | caller act line name want room => exact (back _ _ _).trans (pushes_deliver _ want vs)
  | operation act next event operands line want depth room =>
    exact (back act depth room).trans (pushes_operate _ _ _ _ _ _)
  | native g next depth room => exact (back _ depth room).trans (pushes_runNative host _ _ _)
  | protect handler? depth room => exact (back _ depth room).trans (pushes_focus _ trivial)
  | handled depth room => cases plain
  | closed act line after depth room =>
    cases after with
    | done => exact (back act depth room).trans (pushes_focus _ trivial)
    | leave => exact (back act depth room).trans (pushes_focus _ trivial)
    | goto label => exact (back act depth room).trans (pushes_focus _ trivial)
    | give vs => exact (back act depth room).trans (pushes_focus _ trivial)
    | unwind e => cases plain
  | _ => exact pushes_focus _ trivial

/-- Results that end a coroutine go to the one that has resumed it. -/
theorem leaves_endThread (m : Machine) (vs : List Value) (r : Resumer) (rs : List Resumer)
    (bottom : m.stack = []) (resumers : m.resumers = r :: rs) : Leaves m (m.endThread vs) := by
  unfold endThread
  rw [resumers]
  exact ⟨.inl (by rw [bottom]; rfl), .refl _, ⟨r, resumers, rfl, [], rfl, by simp⟩, trivial⟩

/-! ## Errors -/

/-- An error goes on where there is no handler for it or memory is short. Otherwise the handler is called
above a frame that waits for it. -/
theorem handle_cases (m : Machine) (e : Value) :
    (m.handle e = { m with focus := .unwind e } ∧
      (e = memoryError ∨ ∀ h, handler? m.stack ≠ some (some h))) ∨
    (∃ h, handler? m.stack = some (some h) ∧
      m.handle e = nest { m with stack := .handled m.depth m.room :: m.stack } ByteArray.empty
        fun m => { m with focus := .enter h [e] }) := by
  unfold handle
  split
  · rename_i h found
    by_cases memory : (e == memoryError) = true
    · rw [if_pos memory]
      exact .inl ⟨rfl, .inl (eq_of_beq memory)⟩
    · rw [if_neg memory]
      exact .inr ⟨h, found, rfl⟩
  · rename_i found
    exact .inl ⟨rfl, .inr fun h same => found h same⟩

theorem nest_enter_above (m : Machine) (place : ByteArray) (f : Value) (args : List Value) :
    Pushes m (nest m place fun m => { m with focus := .enter f args }) :=
  pushes_nest fun _ => .none (.refl _) rfl rfl rfl fun _ => trivial

/-- An error goes on to the next variable that is to be closed or to the next place that catches errors. -/
theorem unwindTo_cases (m : Machine) (e : Value) (stack : List Frame) :
    ∃ passed rest, stack = passed ++ rest ∧ (∀ f ∈ passed, f.isPassed) ∧
      ((rest = [] ∧ m.unwindTo e stack = { m with focus := .failed e, stack := [] }) ∨
      (∃ h depth room fs, rest = .protect h depth room :: fs ∧ m.unwindTo e stack =
        { m with focus := .give [.bool false, e], stack := fs, depth := depth, room := room }) ∨
      (∃ v line fs, rest = .closing v line :: fs ∧
        m.unwindTo e stack = closeVariable { m with stack := fs } v e line (.unwind e))) := by
  -- Up the stack, collecting the frames that the error passes.
  induction stack with
  | nil => exact ⟨[], [], rfl, by simp, .inl ⟨rfl, rfl⟩⟩
  | cons f fs ih =>
    unfold unwindTo
    split
    · rename_i empty
      cases empty
    · rename_i h depth room fs' whole
      cases whole
      exact ⟨[], _, rfl, by simp, .inr (.inl ⟨h, depth, room, fs, rfl, rfl⟩)⟩
    · rename_i v line fs' whole
      cases whole
      exact ⟨[], _, rfl, by simp, .inr (.inr ⟨v, line, fs, rfl, rfl⟩)⟩
    · rename_i noProtect noClosing whole
      cases whole
      obtain ⟨passed, rest, split, passes, result⟩ := ih
      refine ⟨f :: passed, rest, by rw [split, List.cons_append], ?_, result⟩
      intro g member
      obtain same | member := List.mem_cons.1 member
      · rw [same]
        cases f with
        | protect h depth room => exact absurd rfl (noProtect h depth room)
        | closing v line => exact absurd rfl (noClosing v line)
        | _ => rfl
      · exact passes g member

/-- An error that something catches goes on through the stack. -/
theorem unwind_of_caught (host : Host) {m : Machine} (e : Value) {found : Option Value}
    (caught : handler? m.stack = some found) : m.unwind host e = m.unwindTo e m.stack := by
  unfold unwind
  rw [caught]

/-- An error that nothing catches ends the outermost coroutine. -/
theorem unwind_outermost (host : Host) {m : Machine} (e : Value) (uncaught : handler? m.stack = none)
    (outermost : m.resumers = []) : m.unwind host e = { m with focus := .failed e } := by
  unfold unwind
  rw [uncaught, outermost]

/-- An error that is not caught in a coroutine goes to the one that has resumed it. -/
theorem leaves_unwind (host : Host) (m : Machine) (e : Value) (uncaught : handler? m.stack = none)
    (r : Resumer) (rs : List Resumer) (resumers : m.resumers = r :: rs) :
    Leaves m (m.unwind host e) := by
  unfold unwind
  rw [uncaught, resumers]
  simp only []
  split
  · have runs := pushes_runNative host (m.goBack r rs .dead .done) (.wrapper m.thread) do
      let e ← closeAll (openVariables m.stack) (some e)
      Action.fail (.value (wrapError (levelText 1 r.stack) (e.getD .nil)))
    obtain ⟨pre, stack, plain⟩ := runs.stack
    refine ⟨.inr uncaught, runs.heap, ⟨r, ?_, runs.thread, pre, stack, plain⟩, runs.focus trivial⟩
    rw [resumers, runs.resumers]
    rfl
  · exact ⟨.inr uncaught, .refl _, ⟨r, resumers, rfl, [], rfl, by simp⟩, trivial⟩

/-! ## The end -/

/-- A machine that does nothing any more stays as it is. -/
theorem step_stopped (host : Host) (stopped : m.hasStopped = true) : m.step host = m := by
  obtain ⟨focus, act, stack, heap, depth, room, thread, threads, resumers⟩ := m
  cases focus with
  | finished vs => rfl
  | failed e => rfl
  | gone => rfl
  | _ => cases stopped

theorem hasStopped_of_hasEnded (ended : m.hasEnded = true) : m.hasStopped = true := by
  obtain ⟨focus, act, stack, heap, depth, room, thread, threads, resumers⟩ := m
  cases focus with
  | finished vs => rfl
  | failed e => rfl
  | _ => cases ended

/-- A machine that has ended stays as it is. -/
theorem step_ended (host : Host) (ended : m.hasEnded = true) : m.step host = m :=
  step_stopped host (hasStopped_of_hasEnded ended)

/-! ## Heaps -/

theorem Proceeds.heap (h : Proceeds m m') : m.heap.Grows m'.heap := by
  obtain ⟨given, rest, split, inner, moves⟩ := h
  exact moves.heap

theorem grows_give (host : Host) (m : Machine) (vs : List Value) (focus : m.focus = .done) :
    m.heap.Grows (m.give host vs).heap := by
  cases stack : m.stack with
  | nil =>
    have ends : m.give host vs = m.endThread vs := by
      unfold give
      rw [stack]
    rw [ends]
    cases resumers : m.resumers with
    | nil =>
      unfold endThread
      rw [resumers]
      exact .refl _
    | cons r rs => exact (leaves_endThread m vs r rs stack resumers).heap
  | cons f rest =>
    -- Frames that an error has pushed are taken away without touching the heap.
    by_cases plain : f.isPlain = true
    · exact (pushes_give host vs focus stack plain).heap
    · unfold give
      rw [stack]
      cases f with
      | handled depth room => exact .refl _
      | closed act line after depth room =>
        cases after with
        | unwind e => exact .refl _
        | _ => exact absurd rfl plain
      | _ => exact absurd rfl plain

theorem grows_handle (m : Machine) (e : Value) : m.heap.Grows (m.handle e).heap := by
  obtain ⟨same, -⟩ | ⟨h, -, same⟩ := handle_cases m e
  · rw [same]
    exact .refl _
  · rw [same]
    exact (nest_enter_above { m with stack := .handled m.depth m.room :: m.stack } _ _ _).heap

theorem grows_unwind (host : Host) (m : Machine) (e : Value) :
    m.heap.Grows (m.unwind host e).heap := by
  cases caught : handler? m.stack with
  | some _ =>
    have result := unwind_of_caught host e caught
    obtain ⟨passed, rest, -, -, ⟨-, same⟩ | ⟨h, depth, room, fs, -, same⟩ | ⟨v, line, fs, -, same⟩⟩ :=
      unwindTo_cases m e m.stack
    · rw [result, same]
      exact .refl _
    · rw [result, same]
      exact .refl _
    · rw [result, same]
      exact (closeVariable_above { m with stack := fs } v e line (.unwind e)).heap
  | none =>
    cases resumers : m.resumers with
    | nil =>
      rw [unwind_outermost host e caught resumers]
      exact .refl _
    | cons r rs => exact (leaves_unwind host m e caught r rs resumers).heap

/-- A heap only grows in a step. -/
theorem step_grows (host : Host) (m : Machine) : m.heap.Grows (m.step host).heap := by
  by_cases inner : m.focus.isInner = true
  · exact (step_proceeds host m inner).heap
  · obtain ⟨focus, act, stack, heap, depth, room, thread, threads, resumers⟩ := m
    cases focus with
    | give vs => exact grows_give host ⟨.done, act, stack, heap, depth, room, thread, threads, resumers⟩ vs rfl
    | raise e => exact grows_handle ⟨.done, act, stack, heap, depth, room, thread, threads, resumers⟩ e
    | unwind e =>
      exact grows_unwind host ⟨.done, act, stack, heap, depth, room, thread, threads, resumers⟩ e
    | finished vs => exact .refl _
    | failed e => exact .refl _
    | _ => exact absurd rfl inner

/-- A heap only grows in a run. -/
theorem run_grows (host : Host) (fuel : Nat) (m : Machine) : m.heap.Grows (m.run host fuel).heap := by
  induction fuel generalizing m with
  | zero => exact .refl _
  | succ fuel ih =>
    unfold run
    split
    · exact .refl _
    · exact (step_grows host m).trans (ih _)

end Machine

end VaultConsole.Lua
