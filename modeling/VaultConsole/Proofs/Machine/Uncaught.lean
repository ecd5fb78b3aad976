import Mathlib.Logic.Function.Iterate
import VaultConsole.Proofs.Machine.Returns

/-!
# Errors that nothing catches

Above a place that catches errors and has a handler for them, an error that nothing else catches is
handled, and what the handler gives back goes on instead. `exists_raise` traces an error that goes on to
that place back to the error that was raised last, and to the run of the handler for it. The frames that
wait on the way were pushed at some time (`exists_push`), and that is when the error was raised.

`stays_or_exits` is what can become of such a place at all, with a handler or without: the machine stays above it, or
leaves it once, with results or with an error.
-/

namespace VaultConsole.Lua

namespace Machine

variable {host : Host} {R : List Resumer} {m m' : Machine} {S S' B : List Frame}

/-- An error is raised that nothing catches above a stack. -/
def Uncaught (R : List Resumer) (B : List Frame) (m : Machine) (v : Value) : Prop :=
  m.resumers = R ∧ m.focus = .raise v ∧ ∃ pre, m.stack = pre ++ B ∧ ∀ f ∈ pre, f.catches = false

/-! ## When a frame is pushed -/

/-- What does not hold at first and holds later has begun to hold at some time. -/
theorem exists_last_not {p : Nat → Prop} {n : Nat} (first : ¬ p 0) (last : p n) :
    ∃ i, i < n ∧ ¬ p i ∧ ∀ k, i < k → k ≤ n → p k := by
  induction n with
  | zero => exact absurd last first
  | succ n ih =>
    by_cases before : p n
    · obtain ⟨i, below, not, since⟩ := ih before
      refine ⟨i, by omega, not, fun k after upTo => ?_⟩
      obtain rfl | inside : k = n + 1 ∨ k ≤ n := by omega
      · exact last
      · exact since k after inside
    · refine ⟨n, by omega, before, fun k after upTo => ?_⟩
      obtain rfl : k = n + 1 := by omega
      exact last

/-- A frame that a step pushes is a plain one, or waits for a handler, or for a variable that an error
closes. -/
theorem Change.new_frame {upper T : List Frame} {f : Frame} (change : Change R m m' S (upper ++ f :: T)) :
    (∃ upper', S = upper' ++ f :: T) ∨ f.isPlain ∨
      (∃ e h, m.resumers = R ∧ m.focus = .raise e ∧ handler? S = some (some h) ∧ S = T ∧
        f = .handled m.depth m.room ∧
        m' = nest { m with focus := .done, stack := f :: T } ByteArray.empty
          fun m => { m with focus := .enter h [e] }) ∨
      ∃ e passed v line, m.resumers = R ∧ m.focus = .unwind e ∧ S = passed ++ .closing v line :: T ∧
        (∀ g ∈ passed, g.isPassed) ∧ f = .closed m.act line (.unwind e) m.depth m.room := by
  -- A frame among plain ones that were pushed is plain, any other one was there before.
  have pushed : ∀ pre rest given : List Frame, upper ++ f :: T = pre ++ rest → (∀ g ∈ pre, g.isPlain) →
      S = given ++ rest → (∃ upper', S = upper' ++ f :: T) ∨ f.isPlain := by
    intro pre rest given split plain before
    obtain ⟨upper', -, old⟩ | ⟨beyond, new, -⟩ := append_eq_above split.symm
    · exact .inl ⟨given ++ upper', by rw [before, old, List.append_assoc]⟩
    · exact .inr (plain f (by rw [new]; simp))
  cases change with
  | waits waiting pre stack plain =>
    obtain old | new := pushed pre S [] stack plain rfl
    · exact .inl old
    · exact .inr (.inl new)
  | proceeds running inner given rest pre before bounded after plain =>
    obtain old | new := pushed pre rest given after plain before
    · exact .inl old
    · exact .inr (.inl new)
  | gives running vs g rest pre given before ordinary after plain =>
    obtain old | new := pushed pre rest [g] after plain before
    · exact .inl old
    · exact .inr (.inl new)
  | handled running vs depth room given before => exact .inl ⟨_ :: upper, before⟩
  | closed running vs act line e depth room given before => exact .inl ⟨_ :: upper, before⟩
  | unhandled running e raised after => exact .inl ⟨upper, after.symm⟩
  | handles running e h raised found after stays calls =>
    cases upper with
    | nil =>
      obtain ⟨top, rest⟩ := List.cons.inj after
      refine .inr (.inr (.inl ⟨e, h, running, raised, found, rest.symm, top, ?_⟩))
      rw [calls, top, rest]
    | cons o upper => exact .inl ⟨upper, (List.cons.inj after).2.symm⟩
  | catches running e passed h depth room goes before =>
    exact .inl ⟨passed ++ .protect h depth room :: upper, by rw [before]; simp⟩
  | closes running e passed rest v line goes before passes after =>
    cases upper with
    | nil =>
      obtain ⟨top, below⟩ := List.cons.inj after
      exact .inr (.inr (.inr ⟨e, passed, v, line, running, goes, by rw [before, ← below], passes, top⟩))
    | cons o upper =>
      have below : upper ++ f :: T = rest := (List.cons.inj after).2
      exact .inl ⟨passed ++ .closing v line :: upper, by rw [before, ← below]; simp⟩
  | ended running after => exact .inl ⟨upper, after.symm⟩

/-! ## Runs that return to a frame -/

/-- Where results are given to a frame that an error has pushed, it is taken away. -/
theorem stack_step_of_special (host : Host) {f : Frame} {vs : List Value} (special : f.isPlain = false)
    (arrives : Arrives R (f :: B) m vs) : (m.step host).stack = B ∧ (m.step host).resumers = R := by
  obtain ⟨focus, act, stack, heap, depth, room, thread, threads, resumers⟩ := m
  obtain ⟨rfl, rfl, rfl⟩ := arrives
  cases f with
  | handled depth room => exact ⟨rfl, rfl⟩
  | closed act line after depth room =>
    cases after with
    | unwind e => exact ⟨rfl, rfl⟩
    | _ => cases special
  | _ => cases special

/-- A run that stays above a stack and gives no results to it until the end returns to it. -/
theorem returns_of_busy {vs : List Value} (n : Nat)
    (busy : ∀ k, k < n → Above R B ((step host)^[k] m) ∧ ∀ ws, ¬ Arrives R B ((step host)^[k] m) ws)
    (arrives : Arrives R B ((step host)^[n] m) vs) : Returns host R B m vs ((step host)^[n] m) := by
  induction n generalizing m with
  | zero => exact .here arrives
  | succ n ih =>
    obtain ⟨above, waits⟩ := busy 0 (Nat.succ_pos n)
    rw [Function.iterate_succ_apply] at arrives ⊢
    refine .later above waits (ih (fun k below => ?_) arrives)
    have later := busy (k + 1) (by omega)
    rwa [Function.iterate_succ_apply] at later

/-- Where results that are given to a stack leave it at once, a run above it that gives some in the end gives them
for the first time. -/
theorem returns_of_leaves (leaves : ∀ m ws, Arrives R B m ws → ¬ Above R B (step host m)) {vs : List Value} (n : Nat)
    (above : ∀ k, k ≤ n → Above R B ((step host)^[k] m)) (arrives : Arrives R B ((step host)^[n] m) vs) :
    Returns host R B m vs ((step host)^[n] m) := by
  refine returns_of_busy n (fun k below => ⟨above k (by omega), fun ws early => ?_⟩) arrives
  have later := above (k + 1) (by omega)
  rw [Function.iterate_succ_apply'] at later
  exact leaves _ ws early later

/-- A run above a frame that an error has pushed returns to it when it gives results to it. -/
theorem returns_of_above_all {f : Frame} {vs : List Value} (special : f.isPlain = false) (n : Nat)
    (above : ∀ k, k ≤ n → Above R (f :: B) ((step host)^[k] m))
    (arrives : Arrives R (f :: B) ((step host)^[n] m) vs) :
    Returns host R (f :: B) m vs ((step host)^[n] m) := by
  refine returns_of_leaves (fun m ws given => ?_) n above arrives
  obtain ⟨stack, running⟩ := stack_step_of_special host special given
  exact not_above_of_length (.running running stack) (by rw [List.length_cons]; omega)

/-- Results that are given where errors are caught leave that place. -/
theorem step_of_arrives {h? : Option Value} {depth room : Nat} {vs : List Value}
    (arrives : Arrives R (.protect h? depth room :: B) m vs) :
    m.step host = { m with focus := .give (.bool true :: vs), stack := B, depth := depth, room := room } := by
  obtain ⟨focus, act, stack, heap, depth', room', thread, threads, resumers⟩ := m
  obtain ⟨rfl, rfl, rfl⟩ := arrives
  rfl

theorem not_above_of_arrives {h? : Option Value} {depth room : Nat} {vs : List Value}
    (arrives : Arrives R (.protect h? depth room :: B) m vs) :
    ¬ Above R (.protect h? depth room :: B) (m.step host) := by
  rw [step_of_arrives arrives]
  exact not_above_of_length (S := B) (.running arrives.1 rfl) (Nat.lt_succ_self _)

/-- What is given when the place is left has been returned to it. -/
theorem returns_of_exit {h? : Option Value} {depth room n : Nat} {vs : List Value}
    (above : ∀ k, k ≤ n → Above R (.protect h? depth room :: B) ((step host)^[k] m))
    (arrives : Arrives R (.protect h? depth room :: B) ((step host)^[n] m) vs) :
    Returns host R (.protect h? depth room :: B) m vs ((step host)^[n] m) :=
  returns_of_leaves (fun _ _ given => not_above_of_arrives given) n above arrives

/-- In a run that returns to a frame no error was raised that nothing catches. -/
theorem Returns.not_uncaught {f : Frame} {pre : List Frame} {vs : List Value} {v : Value}
    (boundary : f.isBoundary) (h : Returns host R (f :: (pre ++ B)) m vs m') : ¬ Uncaught R B m v := by
  rintro ⟨running, raised, upper, stack, uncaught⟩
  obtain ⟨above, at'⟩ := h.above
  have split : upper = above ++ f :: pre := by
    have whole := stack.symm.trans (at'.stack_eq running)
    rw [← List.cons_append, ← List.append_assoc] at whole
    exact List.append_cancel_right whole
  refine Doomed.not_returns boundary (.fails running above (at'.stack_eq running) ?_ (.inl ⟨v, raised⟩)) h
  intro g member
  exact uncaught g (by rw [split]; exact List.mem_append_left _ member)

/-! ## Where an error comes from -/

/-- What becomes of an error that a machine raises where a handler is called: lack of memory is not handled,
and of any other error the first result of the handler goes on. -/
inductive HandledAs (host : Host) (R : List Resumer) (handler : Value) (m : Machine) : Value → Value → Prop where
  | unhandled : HandledAs host R handler m memoryError memoryError
  | handled {v w : Value} (ws : List Value) (after : Machine)
      (returns : Returns host R (.handled m.depth m.room :: m.stack)
        (nest { m with focus := .done, stack := .handled m.depth m.room :: m.stack } ByteArray.empty
          fun m => { m with focus := .enter handler [v] }) ws after)
      (first : w = ws.headD .nil) : HandledAs host R handler m v w

/-- The error that goes on in the end, of a run above a stack whose top catches errors with a handler: errors
nest too deeply, or it is what became of the last error that was raised and that nothing catches. -/
def Originates (host : Host) (R : List Resumer) (B : List Frame) (handler : Value) (m : Machine) (n : Nat)
    (w : Value) : Prop :=
  (w = .text "error in error handling" ∧ ∃ k, k ≤ n ∧ ((step host)^[k] m).IsDeep) ∨
    ∃ i v, i < n ∧ Uncaught R B ((step host)^[i] m) v ∧
      (∀ k v', i < k → k ≤ n → ¬ Uncaught R B ((step host)^[k] m) v') ∧
      HandledAs host R handler ((step host)^[i] m) v w

theorem handler?_of_uncaught {pre : List Frame} (uncaught : ∀ f ∈ pre, f.catches = false)
    (rest : List Frame) : handler? (pre ++ rest) = handler? rest := by
  induction pre with
  | nil => rfl
  | cons f fs ih =>
    have others := ih fun g member => uncaught g (List.mem_cons_of_mem _ member)
    have top := uncaught f List.mem_cons_self
    cases f with
    | protect h depth room => cases top
    | _ => exact others

/-- A frame above a stack that was not there at first was pushed by a step since. -/
theorem exists_push {f : Frame} {pre : List Frame} (n : Nat) (special : f.isPlain = false)
    (fresh : ¬ Above R (f :: (pre ++ B)) m)
    (above : ∀ k, k ≤ n → Above R B ((step host)^[k] m))
    (waits : Above R (f :: (pre ++ B)) ((step host)^[n] m)) :
    ∃ i, i < n ∧ (∀ k, i < k → k ≤ n → Above R (f :: (pre ++ B)) ((step host)^[k] m)) ∧
      ∃ before after, before = (step host)^[i] m ∧ after = (step host)^[i + 1] m ∧
        ((∃ e h, before.resumers = R ∧ before.focus = .raise e ∧
          handler? before.stack = some (some h) ∧ before.stack = pre ++ B ∧
          f = .handled before.depth before.room ∧
          after = nest { before with focus := .done, stack := f :: (pre ++ B) } ByteArray.empty
            fun m => { m with focus := .enter h [e] }) ∨
        ∃ e passed v line, before.resumers = R ∧ before.focus = .unwind e ∧
          before.stack = passed ++ .closing v line :: (pre ++ B) ∧ (∀ g ∈ passed, g.isPassed) ∧
          f = .closed before.act line (.unwind e) before.depth before.room) := by
  -- The last step before which the frame was not there has pushed it.
  obtain ⟨i, below, not, since⟩ := exists_last_not
    (p := fun k => Above R (f :: (pre ++ B)) ((step host)^[k] m)) fresh waits
  refine ⟨i, below, since, (step host)^[i] m, (step host)^[i + 1] m, rfl, rfl, ?_⟩
  obtain ⟨upper, at'⟩ := since (i + 1) (by omega) below
  obtain ⟨base, before⟩ := above i (by omega)
  rw [Function.iterate_succ_apply'] at at' ⊢
  obtain ⟨S', later, change⟩ | left := step_level host before
  · have same := later.unique at'
    subst same
    obtain ⟨old, there⟩ | plain | ⟨e, h, running, raised, found, whole, top, calls⟩ |
        ⟨e, passed, v, line, running, goes, whole, passes, top⟩ := change.new_frame
    · exact absurd ⟨old, by rw [← there]; exact before⟩ not
    · rw [special] at plain
      cases plain
    · have stack := (before.stack_eq running).trans whole
      refine .inl ⟨e, h, running, raised, ?_, stack, top, calls⟩
      rw [before.stack_eq running]
      exact found
    · exact .inr ⟨e, passed, v, line, running, goes, (before.stack_eq running).trans whole, passes, top⟩
  · exact absurd ⟨upper, at'⟩ (left.2.not_above left.1)

/-- While a frame that an error has pushed waits for results that it gets, no error is raised that nothing
catches. -/
theorem returns_since {f : Frame} {pre : List Frame} {vs : List Value} {i n : Nat}
    (special : f.isPlain = false)
    (since : ∀ k, i < k → k ≤ n → Above R (f :: (pre ++ B)) ((step host)^[k] m))
    (arrives : Arrives R (f :: (pre ++ B)) ((step host)^[n] m) vs) (k : Nat) (after : i < k)
    (upTo : k ≤ n) :
    Returns host R (f :: (pre ++ B)) ((step host)^[k] m) vs ((step host)^[n] m) ∧
      ∀ v, ¬ Uncaught R B ((step host)^[k] m) v := by
  have split : n = (n - k) + k := by omega
  have returns : Returns host R (f :: (pre ++ B)) ((step host)^[k] m) vs
      ((step host)^[n - k] ((step host)^[k] m)) := by
    refine returns_of_above_all special (n - k) (fun j inside => ?_) ?_
    · rw [← Function.iterate_add_apply]
      exact since (j + k) (by omega) (by omega)
    · rw [← Function.iterate_add_apply, ← split]
      exact arrives
  rw [← Function.iterate_add_apply, ← split] at returns
  exact ⟨returns, fun v => returns.not_uncaught (Frame.isBoundary_of_not_isPlain special)⟩

variable {handler w : Value} {depth room : Nat} {pre : List Frame}

theorem not_uncaught_of_unwind (goes : m.focus = .unwind w) (v : Value) : ¬ Uncaught R B m v := by
  rintro ⟨-, raised, -⟩
  rw [goes] at raised
  cases raised

/-- A machine with a stack has no frame above it yet. -/
theorem not_above_at_first (stack : m.stack = B) (running : m.resumers = R) (f : Frame) :
    ¬ Above R (f :: (pre ++ B)) m := by
  refine not_above_of_length (.running running stack) ?_
  simp only [List.length_cons, List.length_append]
  omega

/-- What a handler gives back is what became of the error for which it was called. -/
theorem originates_of_handled (stack : m.stack = B) (running : m.resumers = R)
    (found : handler? B = some (some handler)) (uncaught : ∀ f ∈ pre, f.catches = false) {n : Nat}
    (above : ∀ k, k ≤ n → Above R B ((step host)^[k] m)) {vs : List Value}
    (arrives : Arrives R (.handled depth room :: (pre ++ B)) ((step host)^[n] m) vs)
    (goes : ((step host)^[n + 1] m).focus = .unwind (vs.headD .nil)) :
    Originates host R B handler m (n + 1) (vs.headD .nil) := by
  have waits : Above R (.handled depth room :: (pre ++ B)) ((step host)^[n] m) :=
    ⟨[], .running arrives.1 arrives.2.1⟩
  -- The frame was pushed when the handler was called, and the handler has run above it since.
  obtain ⟨i, below, since, before, after, rfl, rfl,
      ⟨v, h, running', raised, found', stack', same, calls⟩ | ⟨v, passed, x, line, -, -, -, -, same⟩⟩ :=
    exists_push n rfl (not_above_at_first stack running _) above waits
  · have returns := returns_since (f := .handled depth room) rfl since arrives
    obtain rfl : handler = h := by
      rw [stack', handler?_of_uncaught uncaught, found] at found'
      cases found'
      rfl
    refine .inr ⟨i, v, by omega, ⟨running', raised, pre, stack', uncaught⟩, fun k v' after upTo => ?_,
      .handled vs ((step host)^[n] m) ?_ rfl⟩
    · obtain rfl | inside : k = n + 1 ∨ k ≤ n := by omega
      · exact not_uncaught_of_unwind goes v'
      · exact (returns k after inside).2 v'
    · rw [stack', ← same, ← calls]
      exact (returns (i + 1) (by omega) (by omega)).1
  · cases same

/-- Where a variable was closed on the way, the error had come to it before. -/
theorem originates_of_closed (stack : m.stack = B) (running : m.resumers = R)
    (uncaught : ∀ f ∈ pre, f.catches = false) {n : Nat}
    (above : ∀ k, k ≤ n → Above R B ((step host)^[k] m)) {act : Activation} {line : Nat} {vs : List Value}
    (arrives : Arrives R (.closed act line (.unwind w) depth room :: (pre ++ B)) ((step host)^[n] m) vs)
    (goes : ((step host)^[n + 1] m).focus = .unwind w)
    (earlier : ∀ i, i ≤ n → Escapes R B ((step host)^[i] m) w → Originates host R B handler m i w) :
    Originates host R B handler m (n + 1) w := by
  have waits : Above R (.closed act line (.unwind w) depth room :: (pre ++ B)) ((step host)^[n] m) :=
    ⟨[], .running arrives.1 arrives.2.1⟩
  obtain ⟨i, below, since, before, after, rfl, rfl, ⟨v, h, -, -, -, -, same, -⟩ |
      ⟨e, passed, x, line', running', goes', stack', passes, same⟩⟩ :=
    exists_push n rfl (not_above_at_first stack running _) above waits
  · cases same
  · obtain rfl : w = e := by
      cases same
      rfl
    have returns := returns_since (f := .closed act line (.unwind w) depth room) rfl since arrives
    have free : ∀ f ∈ passed ++ .closing x line' :: pre, f.catches = false := by
      intro f member
      obtain member | member := List.mem_append.1 member
      · exact Frame.catches_of_isPassed (passes f member)
      · obtain rfl | member := List.mem_cons.1 member
        · rfl
        · exact uncaught f member
    have escapes : Escapes R B ((step host)^[i] m) w :=
      ⟨running', goes', passed ++ .closing x line' :: pre, by rw [stack']; simp, free⟩
    obtain ⟨deep, k, upTo, isDeep⟩ | ⟨j, v, first, raised, quiet, handled⟩ := earlier i (by omega) escapes
    · exact .inl ⟨deep, k, by omega, isDeep⟩
    · -- Nothing was raised while the variable was closed.
      refine .inr ⟨j, v, by omega, raised, fun k v' after upTo => ?_, handled⟩
      obtain rfl | inside | early : k = n + 1 ∨ (i < k ∧ k ≤ n) ∨ k ≤ i := by omega
      · exact not_uncaught_of_unwind goes v'
      · exact (returns k inside.1 inside.2).2 v'
      · exact quiet k v' after early

/-- Lack of memory goes on as it was raised. -/
theorem originates_of_unhandled {n : Nat} (raised : Uncaught R B ((step host)^[n] m) memoryError)
    (goes : ((step host)^[n + 1] m).focus = .unwind memoryError) :
    Originates host R B handler m (n + 1) memoryError := by
  refine .inr ⟨n, memoryError, Nat.lt_succ_self n, raised, fun k v' later upTo => ?_, .unhandled⟩
  obtain rfl : k = n + 1 := by omega
  exact not_uncaught_of_unwind goes v'

/-- An error that goes on to a place with a handler comes from the last error that was raised and that
nothing else catches, unless errors nest too deeply. -/
theorem exists_raise (stack : m.stack = .protect (some handler) depth room :: B)
    (running : m.resumers = R) (focus : ∀ e, m.focus ≠ .unwind e) (n : Nat) {w : Value}
    (above : ∀ k, k ≤ n → Above R (.protect (some handler) depth room :: B) ((step host)^[k] m))
    (escapes : Escapes R (.protect (some handler) depth room :: B) ((step host)^[n] m) w) :
    Originates host R (.protect (some handler) depth room :: B) handler m n w := by
  -- Induction on the length of the run: where a variable was closed on the way, the error came to it earlier.
  induction n using Nat.strongRecOn generalizing w with
  | ind n ih =>
    obtain ⟨running', goes, pre, stack', uncaught⟩ := escapes
    cases n with
    | zero => exact absurd goes (focus w)
    | succ n =>
      have above' : ∀ k, k ≤ n → Above R (.protect (some handler) depth room :: B) ((step host)^[k] m) :=
        fun k upTo => above k (by omega)
      obtain ⟨base, before⟩ := above' n (Nat.le_refl n)
      have after : (step host)^[n + 1] m = step host ((step host)^[n] m) := Function.iterate_succ_apply' _ n m
      -- A step that is no such step lets an error go on only where errors nest too deeply.
      have overflow : (step host ((step host)^[n] m)).GoesOn →
          Originates host R (.protect (some handler) depth room :: B) handler m (n + 1) w := by
        intro goesOn
        rw [← after, GoesOn, goes] at goesOn
        exact .inl ⟨goesOn.1, n + 1, Nat.le_refl _, goesOn.2⟩
      have unwinds : ∀ {e}, (step host ((step host)^[n] m)).focus = .unwind e → e = w := fun focus' =>
        Focus.unwind.inj (focus'.symm.trans ((congrArg Machine.focus after).symm.trans goes))
      obtain ⟨S', later, change⟩ | left := step_level host before
      · have whole : S' = pre ++ .protect (some handler) depth room :: B := by
          rw [after] at running' stack'
          exact (later.stack_eq running').symm.trans stack'
        cases change with
        | waits waiting pushed after' plain goesOn => exact overflow (goesOn (after ▸ running'))
        | proceeds running inner given rest pushed before bounded after' plain goesOn => exact overflow goesOn
        | gives running vs g rest pushed given before ordinary after' plain goesOn => exact overflow goesOn
        | handled running'' vs depth' room' given top stays focus' =>
          rw [whole] at top
          obtain rfl := unwinds focus'
          exact originates_of_handled stack running rfl uncaught above'
            ⟨running'', (before.stack_eq running'').trans top, given⟩ goes
        | closed running'' vs act line e depth' room' given top stays focus' =>
          rw [whole] at top
          obtain rfl := unwinds focus'
          exact originates_of_closed stack running uncaught above'
            ⟨running'', (before.stack_eq running'').trans top, given⟩ goes
            fun i upTo => ih i (by omega) fun k upTo' => above k (by omega)
        | unhandled running'' e raised after' stays focus' reason =>
          obtain rfl | handlers := reason
          · obtain rfl := unwinds focus'
            exact originates_of_unhandled
              ⟨running'', raised, pre, by rw [before.stack_eq running'', ← after', whole], uncaught⟩ goes
          · refine absurd ?_ (handlers handler)
            rw [← after', whole, handler?_of_uncaught uncaught]
            rfl
        | handles running'' e h raised found after' stays calls =>
          refine overflow ?_
          rw [calls]
          exact (nest_enter _ _ _ _).2.2
        | catches running'' e passed h depth' room' goes' before' passes catching =>
          rw [after, catching] at goes
          cases goes
        | closes running'' e passed rest v line goes' before' passes after' stays goesOn => exact overflow goesOn
        | ended running'' after' ended =>
          rw [hasEnded, ← after, goes] at ended
          cases ended
      · have last := above (n + 1) (Nat.le_refl _)
        rw [after] at last
        exact absurd last (left.2.not_above left.1)

/-! ## How a run leaves such a place -/

/-- What holds at first and does not hold later has ceased to hold at some time. -/
theorem exists_first_not {p : Nat → Prop} {n : Nat} (first : p 0) (last : ¬ p n) :
    ∃ i, i < n ∧ (∀ k, k ≤ i → p k) ∧ ¬ p (i + 1) := by
  obtain ⟨i, below, before, after⟩ := exists_last_not (p := fun k => ∃ j, j ≤ k ∧ ¬ p j) (n := n)
    (by
      rintro ⟨j, upTo, not⟩
      obtain rfl : j = 0 := by omega
      exact not first)
    ⟨n, Nat.le_refl n, last⟩
  have held : ∀ k, k ≤ i → p k := fun k upTo => by
    by_contra not
    exact before ⟨k, upTo, not⟩
  obtain ⟨j, upTo, not⟩ := after (i + 1) (by omega) below
  obtain rfl : j = i + 1 := by
    by_contra other
    exact not (held j (by omega))
  exact ⟨i, below, held, not⟩

variable {h? : Option Value}

theorem handler?_ne_none (pre : List Frame) : handler? (pre ++ .protect h? depth room :: B) ≠ none := by
  intro uncaught
  cases handler?_of_append uncaught

/-- Whether a coroutine is not left above a stack: there is none to go back to, or what waits there has to
return first. -/
def IsHeld (R : List Resumer) (B : List Frame) : Prop := R = [] ∨ isYieldable B = false

/-- No other coroutine goes on in place of one that is held. -/
theorem Above.not_leaves (held : IsHeld R B) (above : Above R (.protect h? depth room :: B) m)
    (running : m.resumers = R) : ¬ Leaves m m' := by
  intro left
  obtain ⟨pre, at'⟩ := above
  have stack := at'.stack_eq running
  obtain outermost | bound := held
  · obtain ⟨r, resumers, -⟩ := left.resumer
    rw [running, outermost] at resumers
    cases resumers
  · obtain free | uncaught := left.free
    · rw [stack] at free
      have free : isYieldable (.protect h? depth room :: B) = true := isYieldable_of_append free
      exact Bool.false_ne_true (bound.symm.trans free)
    · rw [stack] at uncaught
      exact handler?_ne_none pre uncaught

/-- A machine does not end above a place that catches errors. -/
theorem Above.step_alive (above : Above R (.protect h? depth room :: B) m) (alive : ¬ m.hasEnded) :
    ¬ (m.step host).hasEnded := by
  intro ended
  obtain ⟨pre, at'⟩ := above
  obtain ⟨S', later, change⟩ | left := step_level host at'
  · obtain already | ⟨-, -, empty | uncaught⟩ := change.hasEnded_of ended
    · exact alive already
    · simp at empty
    · exact handler?_ne_none pre uncaught
  · rw [not_hasEnded_of_goesOn left.2.focus] at ended
    cases ended

/-- An error that passes all frames down to a place that catches it is caught there, unless a variable is
closed first. -/
theorem step_of_escapes {e : Value} {pre : List Frame} (held : IsHeld R B) (running : m.resumers = R)
    (goes : m.focus = .unwind e) (stack : m.stack = pre ++ .protect h? depth room :: B)
    (uncaught : ∀ f ∈ pre, f.catches = false)
    (out : ¬ Above R (.protect h? depth room :: B) (m.step host)) :
    m.step host = { m with focus := .give [.bool false, e], stack := B, depth := depth, room := room } := by
  obtain ⟨S', later, change⟩ | left := step_level host (StackAt.running running stack)
  · cases change with
    | waits waiting => exact absurd running waiting
    | proceeds running' inner =>
      rw [goes] at inner
      cases inner
    | gives running' vs g rest pushed given =>
      rw [goes] at given
      cases given
    | handled running' vs depth' room' given =>
      rw [goes] at given
      cases given
    | closed running' vs act line e' depth' room' given =>
      rw [goes] at given
      cases given
    | unhandled running' e' raised =>
      rw [goes] at raised
      cases raised
    | handles running' e' h raised =>
      rw [goes] at raised
      cases raised
    | catches running' e' passed h depth' room' goes' before passes catching =>
      -- It is this place that catches the error, since an error does not pass one and there is none above.
      obtain rfl : e = e' := Focus.unwind.inj (goes.symm.trans goes')
      obtain ⟨between, split, -⟩ | ⟨-, same, rest⟩ | ⟨between, split, -⟩ := frame_cases before
      · have top := passes (.protect h? depth room) (by rw [split]; simp)
        cases top
      · cases same
        rw [catching, rest]
      · have top := uncaught (.protect h depth' room') (by rw [split]; simp)
        cases top
    | closes running' e' passed rest v line goes' before passes after =>
      -- The variable is one above the place, and while it is closed the machine stays there.
      refine absurd ?_ out
      obtain ⟨between, split, -⟩ | ⟨-, same, -⟩ | ⟨between, -, below⟩ := frame_cases before
      · have top := passes (.protect h? depth room) (by rw [split]; simp)
        cases top
      · cases same
      · exact ⟨_ :: between, by rw [List.cons_append, ← below, ← after]; exact later⟩
    | ended running' after ended reason =>
      obtain already | ⟨-, empty | uncaught⟩ := reason
      · rw [hasEnded, goes] at already
        cases already
      · simp at empty
      · exact absurd uncaught (handler?_ne_none pre)
  · exact absurd left.2 (Above.not_leaves held ⟨pre, .running running stack⟩ running)

/-- A run above a place that catches errors, of a coroutine that is held there, goes on above it for ever or
leaves it: it gives results to it, or an error is caught there. -/
theorem stays_or_exits (host : Host) (held : IsHeld R B) (stack : m.stack = .protect h? depth room :: B)
    (running : m.resumers = R) (alive : ¬ m.hasEnded) :
    (∀ n, Above R (.protect h? depth room :: B) ((step host)^[n] m) ∧ ¬ ((step host)^[n] m).hasEnded) ∨
    ∃ n, (∀ k, k ≤ n → Above R (.protect h? depth room :: B) ((step host)^[k] m) ∧
        ¬ ((step host)^[k] m).hasEnded) ∧
      ¬ Above R (.protect h? depth room :: B) ((step host)^[n + 1] m) ∧
      ((∃ vs, Arrives R (.protect h? depth room :: B) ((step host)^[n] m) vs) ∨
      ∃ w last, last = (step host)^[n] m ∧ Escapes R (.protect h? depth room :: B) last w ∧
        (step host)^[n + 1] m =
          { last with focus := .give [.bool false, w], stack := B, depth := depth, room := room }) := by
  -- As long as it is above the place it has not ended.
  have goes : ∀ n, (∀ k, k ≤ n → Above R (.protect h? depth room :: B) ((step host)^[k] m)) →
      ¬ ((step host)^[n] m).hasEnded := by
    intro n
    induction n with
    | zero => exact fun _ => alive
    | succ n ih =>
      intro above
      rw [Function.iterate_succ_apply']
      exact (above n (by omega)).step_alive (ih fun k upTo => above k (by omega))
  by_cases all : ∀ n, Above R (.protect h? depth room :: B) ((step host)^[n] m)
  · exact .inl fun n => ⟨all n, goes n fun k _ => all k⟩
  · have begins : Above R (.protect h? depth room :: B) m := ⟨[], .running running stack⟩
    obtain ⟨j, not⟩ := Classical.not_forall.1 all
    obtain ⟨n, -, above, out⟩ := exists_first_not
      (p := fun k => Above R (.protect h? depth room :: B) ((step host)^[k] m)) begins not
    refine .inr ⟨n, fun k upTo => ⟨above k upTo, goes k fun i below => above i (by omega)⟩, out, ?_⟩
    rw [Function.iterate_succ_apply'] at out ⊢
    obtain stays | arrives | ⟨w, running', goes', pre, stack', uncaught⟩ | ⟨running', left⟩ :=
      (above n (Nat.le_refl n)).step host rfl
    · exact absurd stays out
    · exact .inl arrives
    · exact .inr ⟨w, _, rfl, ⟨running', goes', pre, stack', uncaught⟩,
        step_of_escapes held running' goes' stack' uncaught out⟩
    · exact absurd left ((above n (Nat.le_refl n)).not_leaves held running')

/-- A run of the outermost coroutine that ends leaves a place that catches errors. -/
theorem exists_exit (stack : m.stack = .protect (some handler) depth room :: B) (running : m.resumers = [])
    (alive : ¬ m.hasEnded) {N : Nat} (ended : ((step host)^[N] m).hasEnded) :
    ∃ n, n < N ∧ (∀ k, k ≤ n → Above [] (.protect (some handler) depth room :: B) ((step host)^[k] m)) ∧
      ¬ Above [] (.protect (some handler) depth room :: B) ((step host)^[n + 1] m) ∧
      ((∃ vs, Arrives [] (.protect (some handler) depth room :: B) ((step host)^[n] m) vs) ∨
      ∃ w last, last = (step host)^[n] m ∧
        Escapes [] (.protect (some handler) depth room :: B) last w ∧
        (step host)^[n + 1] m =
          { last with focus := .give [.bool false, w], stack := B, depth := depth, room := room }) := by
  obtain stays | ⟨n, inside, out, exits⟩ := stays_or_exits host (.inl rfl) stack running alive
  · exact absurd ended (stays N).2
  · refine ⟨n, ?_, fun k upTo => (inside k upTo).1, out, exits⟩
    by_contra below
    exact (inside N (by omega)).2 ended

end Machine

end VaultConsole.Lua
