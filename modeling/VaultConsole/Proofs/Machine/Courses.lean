import VaultConsole.Proofs.Machine.Actions
import VaultConsole.Proofs.Machine.Uncaught

/-!
# The course of library functions

A library function that asks neither the host nor the platform, and that calls values with their errors caught,
comes to one of three ends (`course_of_guarded`): it stays above the stack of its caller for ever, or it goes on
with a result, or it fails (`Act.Fails`). Nothing that it calls can leave its coroutine or end the machine, since
what a library function calls has to return to it.
-/

namespace VaultConsole.Lua

/-! ## Actions that call with errors caught -/

/-- An action that asks neither the host nor the platform and calls values only with their errors caught. Between its
calls it captures nothing: what is captured at the end, or at a call, is what was captured when it began, or when
the last call came back. -/
inductive Act.Guarded {α : Type} : Capture → Act α → Prop where
  | done (a : α) (h : Heap) : Guarded h.printed (.done a h)
  | fail (f : Fault) (h : Heap) : Guarded h.printed (.fail f h)
  | call (f : Value) (args : List Value) (h : Heap) {next : List Value → Heap → Act α}
      (later : ∀ vs h', Guarded h'.printed (next vs h')) :
      Guarded h.printed (.call (.builtin (.base .pcall)) (f :: args) h next)

theorem Act.Guarded.bind {α β : Type} {x : Act α} {f : α → Heap → Act β} {p : Capture} (guarded : x.Guarded p)
    (goes : ∀ a h, (f a h).Guarded h.printed) : (x.bind f).Guarded p := by
  induction guarded with
  | done a h => exact goes a h
  | fail fault h => exact .fail fault h
  | call g args h _ ih => exact .call g args h ih

/-- An action that fails above a stack with an error, carried out by a library function at some nesting: one of its
calls nests too deeply, or each call on the way returns and there is a fault in the end. -/
inductive Act.Fails (host : Host) (R : List Resumer) (S : List Frame) (g : Value) (depth : Nat) {α : Type} :
    Act α → Value → Heap → Prop where
  | fail (f : Fault) (h : Heap) : Fails host R S g depth (.fail f h) (Machine.nativeError h S g f) h
  | full {f : Value} {args : List Value} {h : Heap} {next : List Value → Heap → Act α}
      (nests : depth + 1 = Machine.maxDepth) :
      Fails host R S g depth (.call f args h next) (.string (ByteArray.empty ++ "C stack overflow".toUTF8)) h
  | deep {f : Value} {args : List Value} {h : Heap} {next : List Value → Heap → Act α}
      (nests : Machine.maxErrorDepth ≤ depth + 1) :
      Fails host R S g depth (.call f args h next) (.text "error in error handling") h
  | call {f : Value} {args : List Value} {h h' : Heap} {next : List Value → Heap → Act α} {e : Value}
      {m m' : Machine} {vs : List Value} {F : Frame} (returns : Machine.Returns host R (F :: S) m vs m')
      (enters : m.focus = .enter f args) (heap : m.heap = h) (stack : m.stack = F :: S)
      (running : m.resumers = R) (goes : Fails host R S g depth (next vs m'.heap) e h') :
      Fails host R S g depth (.call f args h next) e h'

/-- An action in two parts that fails: the first part fails, or it gives a result and the second part fails. -/
theorem Act.Fails.of_bind {host : Host} {R : List Resumer} {S : List Frame} {g e : Value} {depth : Nat}
    {α β : Type} {x : Act α} {f : α → Heap → Act β} {h' : Heap}
    (fails : (x.bind f).Fails host R S g depth e h') :
    x.Fails host R S g depth e h' ∨
      ∃ a h, x.Gives host R S a h ∧ (f a h).Fails host R S g depth e h' := by
  induction x with
  | done a h => exact .inr ⟨a, h, .done a h, fails⟩
  | fail fault h =>
    cases fails with
    | fail => exact .inl (.fail fault _)
  | call callee args h next ih =>
    cases fails with
    | full nests => exact .inl (.full nests)
    | deep nests => exact .inl (.deep nests)
    | call returns enters heap stack running goes =>
      obtain first | ⟨a, h₁, first, second⟩ := ih _ _ goes
      · exact .inl (.call returns enters heap stack running first)
      · exact .inr ⟨a, h₁, .call returns enters heap stack running first, second⟩
  | ask q h next => cases fails
  | platform c h next => cases fails

namespace Machine

variable {host : Host} {R : List Resumer} {m m' m₀ : Machine} {S B : List Frame} {f : Frame}

/-! ## Runs above a stack -/

theorem Above.below (above : Above R (f :: B) m) : Above R B m := by
  obtain ⟨upper, at'⟩ := above
  exact ⟨upper ++ [f], by rw [List.append_assoc]; exact at'⟩

/-- What is above a stack and one more frame gives no results to that stack. -/
theorem Above.not_arrives (above : Above R (f :: B) m) {vs : List Value} : ¬ Arrives R B m vs := by
  rintro ⟨running, stack, -⟩
  exact not_above_of_length (.running running stack) (by rw [List.length_cons]; omega) above

/-- What returns has come there by steps above the stack, and has not ended. -/
theorem exists_steps {vs : List Value} (returns : Returns host R B m vs m') :
    ∃ n, m' = (step host)^[n] m ∧ ∀ k, k ≤ n → Above R B ((step host)^[k] m) ∧ ¬ ((step host)^[k] m).hasEnded := by
  have alive : ∀ {m : Machine}, Returns host R B m vs m' → ¬ m.hasEnded := fun returns ended =>
    not_returns_of_hasEnded ended returns
  induction returns with
  | here arrives =>
    refine ⟨0, rfl, fun k upTo => ?_⟩
    obtain rfl : k = 0 := Nat.le_zero.1 upTo
    exact ⟨⟨[], .running arrives.1 arrives.2.1⟩, alive (.here arrives)⟩
  | later above busy next ih =>
    obtain ⟨n, same, inside⟩ := ih alive
    refine ⟨n + 1, by rw [Function.iterate_succ_apply]; exact same, fun k upTo => ?_⟩
    cases k with
    | zero => exact ⟨above, alive (.later above busy next)⟩
    | succ k =>
      rw [Function.iterate_succ_apply]
      exact inside k (Nat.le_of_succ_le_succ upTo)

/-- A function that was called above a stack has not come back. -/
def Within (R : List Resumer) (S : List Frame) (m : Machine) : Prop := (∃ f, Above R (f :: S) m) ∧ ¬ m.hasEnded

/-- What has come back to a stack is not above it. -/
theorem not_within (running : m.resumers = R) (stack : m.stack = S) : ¬ Within R S m := by
  rintro ⟨⟨f, above⟩, -⟩
  exact not_above_of_length (.running running stack) (by rw [List.length_cons]; omega) above

/-- A function comes back once. -/
theorem eq_of_within {i j : Nat} (inside : ∀ k, k < i → Within R S ((step host)^[k + 1] m))
    (out : ¬ Within R S ((step host)^[i + 1] m)) (inside' : ∀ k, k < j → Within R S ((step host)^[k + 1] m))
    (out' : ¬ Within R S ((step host)^[j + 1] m)) : i = j := by
  obtain before | same | after := Nat.lt_trichotomy i j
  · exact absurd (inside' i before) out
  · exact same
  · exact absurd (inside j after) out'

/-- What comes of a machine whose next step begins a function above a stack: the function never comes back, or it
is over after some steps, of which the last one is told. -/
def Course (host : Host) (R : List Resumer) (S : List Frame) (m : Machine) (Ends : Machine → Machine → Prop) :
    Prop :=
  (∀ n, Within R S ((step host)^[n + 1] m)) ∨
    ∃ n, (∀ k, k < n → Within R S ((step host)^[k + 1] m)) ∧
      Ends ((step host)^[n] m) ((step host)^[n + 1] m)

theorem Course.imp {Ends Ends' : Machine → Machine → Prop} (course : Course host R S m Ends)
    (goes : ∀ last after, Ends last after → Ends' last after) : Course host R S m Ends' := by
  obtain stays | ⟨n, inside, ends⟩ := course
  · exact .inl stays
  · exact .inr ⟨n, inside, goes _ _ ends⟩

/-- What comes of a machine later comes of it now. -/
theorem Course.of_later {Ends : Machine → Machine → Prop} {j : Nat}
    (inside : ∀ k, k < j → Within R S ((step host)^[k + 1] m))
    (later : Course host R S ((step host)^[j] m) Ends) : Course host R S m Ends := by
  have shift : ∀ n, (step host)^[n] ((step host)^[j] m) = (step host)^[n + j] m := fun n =>
    (Function.iterate_add_apply _ n j m).symm
  have whole {n : Nat} (upTo : ∀ k, k < n → Within R S ((step host)^[k + 1 + j] m)) :
      ∀ k, k < n + j → Within R S ((step host)^[k + 1] m) := by
    intro k below
    obtain early | late := Nat.lt_or_ge k j
    · exact inside k early
    · have within := upTo (k - j) (by omega)
      rwa [show k - j + 1 + j = k + 1 by omega] at within
  obtain stays | ⟨n, upTo, ends⟩ := later
  · refine .inl fun n => whole (n := n + 1) (fun k _ => ?_) n (by omega)
    rw [← shift]
    exact stays k
  · refine .inr ⟨n + j, whole fun k below => ?_, ?_⟩
    · rw [← shift]
      exact upTo k below
    · rw [shift, shift] at ends
      rwa [show n + j + 1 = n + 1 + j by omega]

/-! ## Calls with errors caught -/

/-- What a call with errors caught comes to where its coroutine is held: it goes on for ever, or it gives results,
or an error is caught. -/
theorem protected_course (host : Host) {h? : Option Value} {depth room : Nat} (held : IsHeld R B)
    (stack : m.stack = .protect h? depth room :: B) (running : m.resumers = R) (alive : ¬ m.hasEnded) :
    (∀ n, Above R (.protect h? depth room :: B) ((step host)^[n] m) ∧ ¬ ((step host)^[n] m).hasEnded) ∨
    ∃ n ws, (∀ k, k ≤ n → Above R (.protect h? depth room :: B) ((step host)^[k] m) ∧
        ¬ ((step host)^[k] m).hasEnded) ∧
      (step host)^[n + 1] m =
        { (step host)^[n] m with focus := .give ws, stack := B, depth := depth, room := room } ∧
      ((step host)^[n] m).resumers = R ∧
      ((∃ vs, ws = .bool true :: vs ∧
        Returns host R (.protect h? depth room :: B) m vs ((step host)^[n] m)) ∨
      ∃ w, ws = [.bool false, w] ∧ Escapes R (.protect h? depth room :: B) ((step host)^[n] m) w) := by
  obtain stays | ⟨n, inside, out, ⟨vs, arrives⟩ | ⟨w, last, rfl, escapes, caught⟩⟩ :=
    stays_or_exits host held stack running alive
  · exact .inl stays
  · refine .inr ⟨n, _, inside, ?_, arrives.1,
      .inl ⟨vs, rfl, returns_of_exit (fun k upTo => (inside k upTo).1) arrives⟩⟩
    rw [Function.iterate_succ_apply', step_of_arrives arrives]
  · exact .inr ⟨n, _, inside, caught, escapes.1, .inr ⟨w, rfl, escapes⟩⟩

/-- The call of a function with errors caught goes on for ever or returns, where its coroutine is held. -/
theorem returns_or_stays (host : Host) {callee : Value} {args : List Value} (held : IsHeld R B)
    (enters : m.focus = .enter (.builtin (.base .pcall)) (callee :: args)) (stack : m.stack = B)
    (running : m.resumers = R) :
    (∀ n, Above R B ((step host)^[n] m) ∧ ¬ ((step host)^[n] m).hasEnded) ∨
    ∃ n ws, (∀ k, k < n → Above R B ((step host)^[k] m) ∧ ¬ ((step host)^[k] m).hasEnded) ∧
      Returns host R B m ws ((step host)^[n] m) := by
  -- The place that catches errors stands after one step, also where the call itself nests too deeply.
  have begins : step host m = nest { m with focus := .done, stack := .protect none m.depth m.room :: m.stack }
      ByteArray.empty fun m => { m with focus := .enter callee args } := by
    obtain ⟨focus, act, stack, heap, depth, room, thread, threads, resumers⟩ := m
    obtain rfl : focus = _ := enters
    rfl
  obtain ⟨above, same, goes⟩ := nest_enter
    { m with focus := .done, stack := .protect none m.depth m.room :: m.stack } ByteArray.empty callee args
  rw [← begins] at above same goes
  have alive : ¬ m.hasEnded := by
    rw [hasEnded, enters]
    exact Bool.false_ne_true
  have here : Above R B m := ⟨[], .running running stack⟩
  obtain stays | ⟨n, ws, inside, exits, running', -⟩ := protected_course host held
    (above.trans (congrArg _ stack)) (same.trans running) (by
      rw [not_hasEnded_of_goesOn goes]
      exact Bool.false_ne_true)
  · refine .inl fun n => ?_
    cases n with
    | zero => exact ⟨here, alive⟩
    | succ n => exact ⟨(stays n).1.below, (stays n).2⟩
  · have within : ∀ k, k < n + 2 → Above R B ((step host)^[k] m) ∧ ¬ ((step host)^[k] m).hasEnded := by
      intro k below
      cases k with
      | zero => exact ⟨here, alive⟩
      | succ k => exact ⟨(inside k (by omega)).1.below, (inside k (by omega)).2⟩
    refine .inr ⟨n + 2, ws, within, returns_of_busy (n + 2) (fun k below => ⟨(within k below).1, ?_⟩) ?_⟩
    · cases k with
      | zero => exact not_arrives_of_enter enters
      | succ k => exact fun ws => (inside k (by omega)).1.not_arrives
    · rw [Function.iterate_succ_apply, exits]
      exact ⟨running', rfl, rfl⟩

/-! ## Library functions -/

/-- How a library function is over with the first part of what it carries out: it goes on with what that gives, or
fails as that does. In either case nothing was captured in the last step before. -/
inductive Ends (host : Host) (R : List Resumer) (S : List Frame) (g : Value) (depth : Nat) {α : Type} (x : Act α)
    (goes : α → Heap → Act (List Value)) (last after : Machine) : Prop where
  | gives (a : α) {h h' : Heap} (m : Machine) (grows : (goes a h).Grows h') (gives : x.Gives host R S a h)
      (captured : h.printed = last.heap.printed) (stack : m.stack = S) (running : m.resumers = R)
      (after : after = continueNative host g m (goes a h) grows)
  | fails (e : Value) (fails : x.Fails host R S g depth e after.heap)
      (captured : after.heap.printed = last.heap.printed) (stack : after.stack = S) (running : after.resumers = R)
      (raised : after.focus = .raise e ∨ after.focus = .unwind e)

/-- The nesting of a call is too deep, or the call is made. -/
theorem nest_cases (m : Machine) (place : ByteArray) (go : Machine → Machine) :
    (m.depth + 1 = maxDepth ∧
      nest m place go = raiseText { m with depth := m.depth + 1 } (place ++ "C stack overflow".toUTF8)) ∨
    (maxErrorDepth ≤ m.depth + 1 ∧ nest m place go = { m with focus := .unwind (.text "error in error handling") }) ∨
    nest m place go = go { m with depth := m.depth + 1 } := by
  unfold nest
  simp only []
  split
  · rename_i full
    exact .inl ⟨eq_of_beq full, rfl⟩
  · split
    · rename_i deep
      exact .inr (.inl ⟨deep, rfl⟩)
    · exact .inr (.inr rfl)

/-- A library function goes on with the results of what it has called. -/
theorem step_native {g : Value} {next : List Value → Action (List Value)} {depth room : Nat} {vs : List Value}
    (arrives : Arrives R (.native g next depth room :: S) m vs) :
    m.step host =
      runNative host { m with focus := .done, stack := S, depth := depth, room := room } g (next vs) := by
  obtain ⟨focus, act, stack, heap, depth', room', thread, threads, resumers⟩ := m
  obtain ⟨-, rfl, rfl⟩ := arrives
  rfl

/-- What a library function does depends on the course of its action. -/
theorem exists_continueNative (host : Host) (g : Value) (m : Machine) {x y : Act (List Value)} {h : Heap}
    (grows : x.Grows h) (same : x = y) :
    ∃ grows' : y.Grows h, continueNative host g m x grows = continueNative host g m y grows' := by
  subst same
  exact ⟨grows, rfl⟩

/-- **The course of a library function** that calls with errors caught in the first part of what it does. -/
theorem course_of_guarded {α : Type} {x : Act α} {p : Capture} (guarded : x.Guarded p) {g : Value}
    {goes : α → Heap → Act (List Value)} {h : Heap} (grows : (x.bind goes).Grows h)
    (begins : m₀.step host = continueNative host g m (x.bind goes) grows) (captured : m₀.heap.printed = p)
    (stack : m.stack = S) (running : m.resumers = R) :
    Course host R S m₀ (Ends host R S g m.depth x goes) := by
  -- Induction on the course of the first part: each call comes back to the frame of the library function.
  induction guarded generalizing h m₀ m with
  | done a h' => exact .inr ⟨0, by simp, .gives a m grows (.done a h') captured.symm stack running begins⟩
  | fail fault h' =>
    have finished : (step host)^[0 + 1] m₀ =
      { m with focus := .raise (nativeError h' m.stack g fault), heap := h' } := begins
    refine .inr ⟨0, by simp, ?_⟩
    rw [finished, stack]
    exact .fails _ (.fail fault h') captured.symm rfl running (.inl rfl)
  | @call callee args h' next later ih =>
    generalize frame : Frame.native g (fun vs => ⟨fun h => (next vs h).bind goes, grows.after_call vs⟩)
      m.depth m.room = F
    have nested : m₀.step host = nest { m with heap := h' } ByteArray.empty fun m =>
        { m with focus := .enter (.builtin (.base .pcall)) (callee :: args), stack := F :: m.stack } := by
      rw [← frame]
      exact begins
    obtain ⟨full, finished⟩ | ⟨deep, finished⟩ | entered := nest_cases { m with heap := h' } ByteArray.empty fun m =>
      { m with focus := .enter (.builtin (.base .pcall)) (callee :: args), stack := F :: m.stack }
    · have finished : (step host)^[0 + 1] m₀ = _ := nested.trans finished
      refine .inr ⟨0, by simp, ?_⟩
      rw [finished]
      exact .fails _ (.full full) captured.symm stack running (.inl rfl)
    · have finished : (step host)^[0 + 1] m₀ = _ := nested.trans finished
      refine .inr ⟨0, by simp, ?_⟩
      rw [finished]
      exact .fails _ (.deep deep) captured.symm stack running (.inr rfl)
    · have begun : m₀.step host =
          { m with
            focus := .enter (.builtin (.base .pcall)) (callee :: args), stack := F :: S, heap := h'
            depth := m.depth + 1 } := by
        rw [nested, entered, stack]
      have within {m : Machine} (above : Above R (F :: S) m ∧ ¬ m.hasEnded) : Within R S m :=
        ⟨⟨F, above.1⟩, above.2⟩
      have held : IsHeld R (F :: S) := .inr (by rw [← frame]; rfl)
      have enters : (m₀.step host).focus = .enter (.builtin (.base .pcall)) (callee :: args) := by rw [begun]
      have above : (m₀.step host).stack = F :: S := by rw [begun]
      have heap : (m₀.step host).heap = h' := by rw [begun]
      have same : (m₀.step host).resumers = R := by
        rw [begun]
        exact running
      obtain stays | ⟨n, ws, inside, returns⟩ := returns_or_stays host held enters above same
      · refine .inl fun n => ?_
        rw [Function.iterate_succ_apply]
        exact within (stays n)
      · obtain ⟨running₁, stack₁, focus₁⟩ := returns.arrives
        have alive : ¬ ((step host)^[n] (m₀.step host)).hasEnded := by
          rw [hasEnded, focus₁]
          exact Bool.false_ne_true
        refine .of_later (j := n + 1) (fun k below => ?_) ?_
        · rw [Function.iterate_succ_apply]
          obtain before | rfl : k < n ∨ k = n := by omega
          · exact within (inside k before)
          · exact within ⟨⟨[], .running running₁ stack₁⟩, alive⟩
        · -- The call has come back: the library function goes on, until the end or the next call.
          rw [Function.iterate_succ_apply]
          generalize (step host)^[n] (m₀.step host) = m₁ at returns running₁ stack₁ focus₁
          have resumes : m₁.step host = continueNative host g
              { m₁ with focus := .done, stack := S, heap := default, depth := m.depth, room := m.room }
              ((next ws m₁.heap).bind goes) (grows.after_call ws m₁.heap) := by
            rw [← frame] at stack₁
            exact step_native ⟨running₁, stack₁, focus₁⟩
          refine (ih ws m₁.heap (grows.after_call ws m₁.heap) resumes rfl rfl running₁).imp fun last after ends => ?_
          cases ends with
          | gives a m' grows' gives captured' stack' running' after' =>
            exact .gives a m' grows' (.call returns enters heap above same gives) captured' stack' running' after'
          | fails e fails captured' stack' running' raised =>
            exact .fails e (.call returns enters heap above same fails) captured' stack' running' raised

end Machine

end VaultConsole.Lua
