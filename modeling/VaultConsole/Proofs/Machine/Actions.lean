import Mathlib.Logic.Function.Iterate
import VaultConsole.Proofs.Machine.Returns

/-!
# Actions that give results

`Act.Gives` is the meaning of an action by itself: the values that it calls are called above some stack, and
it goes on with what these calls give. A machine that carries out a library function or accesses an object
and returns in the end has gone through such a course, and goes on where the function or the access began.
-/

namespace VaultConsole.Lua

/-- An action goes on with the result of its first part. -/
theorem Action.run_bind_of_done {α β : Type} {x : Action α} {h h' : Heap} {a : α} (done : x.run h = .done a h')
    (f : α → Action β) : (x >>= f).run h = (f a).run h' := by
  have split : (x >>= f).run h = (x.run h).bind fun a h => (f a).run h := rfl
  rw [split, done]
  rfl

theorem Action.run_pure {α : Type} (a : α) (h : Heap) : (pure a : Action α).run h = .done a h := rfl

theorem Action.run_bind_inspect {α β : Type} (f : Heap → α) (g : α → Action β) (h : Heap) :
    (Action.inspect f >>= g).run h = (g (f h)).run h := rfl

/-- A table without a metatable gets an entry itself. -/
theorem Metamethod.run_setIndex_of_bare {h : Heap} {r : Nat} (bare : (h.table r).metatable? = none)
    (key value : Value) : (setIndex (.table r) key value).run h = (rawSet r key value).run h := by
  have first : setIndex (.table r) key value = setIndexFrom 0 (1999 + 1) (.table r) key value := rfl
  rw [first, setIndexFrom]
  simp only [bare, Option.isNone_none, Bool.true_or, if_true]

theorem Act.bind_assoc {α β γ : Type} (x : Act α) (f : α → Heap → Act β) (g : β → Heap → Act γ) :
    (x.bind f).bind g = x.bind fun a h => (f a h).bind g := by
  induction x with
  | done a h => rfl
  | fail fault h => rfl
  | call callee args h next ih =>
    exact congrArg (Act.call callee args h) (funext fun vs => funext fun h => ih vs h)
  | ask q h next ih => exact congrArg (Act.ask q h) (funext fun r => funext fun h => ih r h)
  | platform c h next ih => exact congrArg (Act.platform c h) (funext fun a => funext fun h => ih a h)

/-- An action gives a result above a stack: each call on the way returns to it, and what the platform is asked is
answered. -/
inductive Act.Gives (host : Host) (R : List Resumer) (S : List Frame) {α : Type} :
    Act α → α → Heap → Prop where
  | done (a : α) (h : Heap) : Gives host R S (.done a h) a h
  | call {f : Value} {args : List Value} {h h' : Heap} {next : List Value → Heap → Act α} {a : α}
      {m m' : Machine} {vs : List Value} {F : Frame} (returns : Machine.Returns host R (F :: S) m vs m')
      (enters : m.focus = .enter f args) (heap : m.heap = h) (stack : m.stack = F :: S)
      (running : m.resumers = R) (goes : Gives host R S (next vs m'.heap) a h') :
      Gives host R S (.call f args h next) a h'
  | ask {q : Query} {h h' : Heap} {next : Reply → Heap → Act α} {a : α}
      (goes : Gives host R S (next (host.answer h.calls q) (h.note (host.notes h.calls q))) a h') :
      Gives host R S (.ask q h next) a h'
  | platform {c : PlatformCall} {h h' : Heap} {next : c.Answer → Heap → Act α} {a : α} {x : c.Answer}
      (answered : host.platform.answer h.calls c = some x) (goes : Gives host R S (next x (h.record c)) a h') :
      Gives host R S (.platform c h next) a h'

/-- An action that asks neither the host nor the platform. -/
inductive Act.Quiet {α : Type} : Act α → Prop where
  | done (a : α) (h : Heap) : Quiet (.done a h)
  | fail (f : Fault) (h : Heap) : Quiet (.fail f h)
  | call {f : Value} {args : List Value} {h : Heap} {next : List Value → Heap → Act α}
      (later : ∀ vs h, Quiet (next vs h)) : Quiet (.call f args h next)

theorem Act.Quiet.bind {α β : Type} {x : Act α} {f : α → Heap → Act β} (quiet : x.Quiet)
    (goes : ∀ a h, (f a h).Quiet) : (x.bind f).Quiet := by
  induction quiet with
  | done a h => exact goes a h
  | fail fault h => exact .fail fault h
  | call _ ih => exact .call ih

/-- An action in two parts that gives a result: the first part gives one, and the second part goes on. -/
theorem Act.Gives.of_bind {host : Host} {R : List Resumer} {S : List Frame} {α β : Type} {x : Act α}
    {f : α → Heap → Act β} {b : β} {h' : Heap} (gives : (x.bind f).Gives host R S b h') :
    ∃ a h, x.Gives host R S a h ∧ (f a h).Gives host R S b h' := by
  induction x with
  | done a h => exact ⟨a, h, .done a h, gives⟩
  | fail fault h => cases gives
  | call g args h next ih =>
    cases gives with
    | call returns enters heap stack running goes =>
      obtain ⟨a, h₁, first, second⟩ := ih _ _ goes
      exact ⟨a, h₁, .call returns enters heap stack running first, second⟩
  | ask q h next ih =>
    cases gives with
    | ask goes =>
      obtain ⟨a, h₁, first, second⟩ := ih _ _ goes
      exact ⟨a, h₁, .ask first, second⟩
  | platform c h next ih =>
    cases gives with
    | platform answered goes =>
      obtain ⟨a, h₁, first, second⟩ := ih _ _ goes
      exact ⟨a, h₁, .platform answered first, second⟩

theorem Act.Gives.eq_of_done {host : Host} {R : List Resumer} {S : List Frame} {α : Type} {a b : α}
    {h h' : Heap} (gives : (Act.done a h).Gives host R S b h') : b = a ∧ h' = h := by
  cases gives
  exact ⟨rfl, rfl⟩

/-- Whether results are given. -/
def Focus.isGive : Focus → Bool
  | .give _ => true
  | _ => false

namespace Machine

variable {host : Host} {R : List Resumer} {m m' : Machine} {B pre : List Frame} {g : Frame}
  {vs : List Value}

/-! ## Runs that return -/

/-- An error that is raised does not return. -/
theorem Returns.not_raise (base : g.isBoundary) (running : m.resumers = R)
    (stack : m.stack = pre ++ g :: B) (uncaught : ∀ f ∈ pre, f.catches = false)
    (focus : (∃ e, m.focus = .raise e) ∨ ∃ e, m.focus = .unwind e) :
    ¬ Returns host R (g :: B) m vs m' :=
  Doomed.not_returns base (.fails running pre stack uncaught focus)

/-- Whether a machine gives no results for a number of steps. -/
def isBusyFor (host : Host) : Nat → Machine → Bool
  | 0, _ => true
  | n + 1, m => !m.focus.isGive && isBusyFor host n (m.step host)

theorem Returns.advance {n : Nat} (h : Returns host R B m vs m') (busy : m.isBusyFor host n = true) :
    Returns host R B ((Machine.step host)^[n] m) vs m' := by
  induction n generalizing m with
  | zero => exact h
  | succ n ih =>
    obtain ⟨calm, later⟩ := Bool.and_eq_true_iff.1 busy
    refine ih (h.step fun ws arrives => ?_) later
    rw [arrives.2.2] at calm
    cases calm

/-- A nested call that returns is entered. -/
theorem Returns.of_nest {place : ByteArray} {go : Machine → Machine}
    (h : Returns host R (g :: B) (nest m place go) vs m') (base : g.isBoundary) (running : m.resumers = R)
    (stack : m.stack = pre ++ g :: B) (uncaught : ∀ f ∈ pre, f.catches = false) :
    Returns host R (g :: B) (go { m with depth := m.depth + 1 }) vs m' := by
  unfold nest at h
  simp only [] at h
  split at h
  · exact absurd h (Returns.not_raise base running stack uncaught (.inl ⟨_, rfl⟩))
  · split at h
    · exact absurd h (Returns.not_raise base running stack uncaught (.inr ⟨_, rfl⟩))
    · exact h

/-- A call above a frame that waits for it returns to that frame, where the machine goes on. -/
theorem Returns.of_enter {F : Frame} (h : Returns host R (g :: B) m vs m') (base : g.isBoundary)
    (boundary : F.isBoundary) (calm : F.catches = false) (running : m.resumers = R)
    (stack : m.stack = F :: (pre ++ g :: B)) (uncaught : ∀ f ∈ pre, f.catches = false) :
    ∃ ws m₁, Returns host R (F :: (pre ++ g :: B)) m ws m₁ ∧ m₁.resumers = R ∧
      m₁.stack = F :: (pre ++ g :: B) ∧ m₁.focus = .give ws ∧
      Returns host R (g :: B) (m₁.step host) vs m' := by
  obtain ⟨ws, m₁, returns, rest⟩ := h.of_above base boundary ⟨[], .running running stack⟩ (by
    intro f member
    obtain same | member := List.mem_cons.1 member
    · rw [same]
      exact calm
    · exact uncaught f member)
  obtain ⟨running₁, stack₁, focus₁⟩ := returns.arrives
  refine ⟨ws, m₁, returns, running₁, stack₁, focus₁, rest.step ?_⟩
  rintro us ⟨-, early, -⟩
  have lengths := congrArg List.length (stack₁.symm.trans early)
  simp only [List.length_cons, List.length_append] at lengths
  omega

/-- A function of the language that returns is carried out. -/
theorem Returns.of_enterClosure {r : Nat} {args : List Value} {c : Closure}
    (h : Returns host R (g :: B) (m.enterClosure r args) vs m') (base : g.isBoundary)
    (uncaught : ∀ f ∈ pre, f.catches = false) (running : m.resumers = R) (stack : m.stack = pre ++ g :: B)
    (closure : m.heap.closures.getD r default = c) :
    let bound := bindParams c.proto.params args m.heap (Array.replicate c.proto.slots .nil)
      (Array.replicate c.proto.cells 0)
    Returns host R (g :: B)
      ⟨.exec c.proto.body, ⟨c.proto.chunk, c.carried, bound.2.1, bound.2.2.1,
        if c.proto.isVararg then bound.2.2.2 else []⟩, m.stack, bound.1, m.depth,
        m.room + c.proto.slots + c.proto.cells + 4, m.thread, m.threads, m.resumers⟩ vs m' := by
  subst closure
  unfold enterClosure at h
  simp only [] at h
  split at h
  · refine absurd h (Returns.not_raise base running stack uncaught ?_)
    by_cases handling : isHandling m.stack = true
    · exact .inr ⟨_, if_pos handling⟩
    · exact .inl ⟨_, if_neg handling⟩
  · split at h
    · exact absurd h (Returns.not_raise base running stack uncaught (.inl ⟨_, rfl⟩))
    · exact h

/-! ## Library functions -/

/-- A library function that returns has given its results. -/
theorem gives_of_continueNative (base : g.isBoundary) (uncaught : ∀ f ∈ pre, f.catches = false)
    (a : Act (List Value)) {h : Heap} (grows : a.Grows h) (f : Value) (m : Machine)
    (running : m.resumers = R) (stack : m.stack = pre ++ g :: B)
    (returns : Returns host R (g :: B) (continueNative host f m a grows) vs m') :
    ∃ ws h' act thread threads, a.Gives host R m.stack ws h' ∧
      Returns host R (g :: B) ⟨.give ws, act, m.stack, h', m.depth, m.room, thread, threads, R⟩ vs m' := by
  subst running
  -- Induction on the course of the action: each call returns to the frame of the library function.
  induction a generalizing h f m with
  | done ws heap => exact ⟨ws, heap, m.act, m.thread, m.threads, .done ws heap, returns⟩
  | fail fault heap =>
    exact absurd returns (Returns.not_raise base rfl stack uncaught (.inl ⟨_, rfl⟩))
  | call callee args heap next ih =>
    simp only [continueNative] at returns
    have entered : Returns host m.resumers (g :: B)
        ⟨.enter callee args, m.act, .native f (fun vs => ⟨next vs, grows.after_call vs⟩) m.depth m.room ::
          m.stack, heap, m.depth + 1, m.room, m.thread, m.threads, m.resumers⟩ vs m' :=
      returns.of_nest base rfl stack uncaught
    obtain ⟨ws, m₁, inner, running₁, stack₁, focus₁, rest⟩ :=
      entered.of_enter base rfl rfl rfl (congrArg (List.cons _) stack) uncaught
    obtain ⟨focus, act, stack', heap', depth, room, thread, threads, resumers⟩ := m₁
    subst running₁ stack₁ focus₁
    rw [← stack] at rest inner
    obtain ⟨us, h', act', thread', threads', gives, later⟩ :=
      ih ws heap' (grows.after_call ws heap') f
        ⟨.done, act, m.stack, default, m.depth, m.room, thread, threads, m.resumers⟩ stack rest
    exact ⟨us, h', act', thread', threads', .call inner rfl rfl rfl rfl gives, later⟩
  | ask q heap next ih =>
    simp only [continueNative] at returns
    split at returns
    · exact absurd returns (Returns.not_raise base rfl stack uncaught (.inl ⟨_, rfl⟩))
    · obtain ⟨ws, h', act, thread, threads, gives, later⟩ := ih _ _ _ _ m stack returns
      exact ⟨ws, h', act, thread, threads, .ask gives, later⟩
  | platform c heap next ih =>
    simp only [continueNative] at returns
    split at returns
    · rename_i x answered
      obtain ⟨ws, h', act, thread, threads, gives, later⟩ := ih _ _ _ _ m stack returns
      exact ⟨ws, h', act, thread, threads, .platform answered gives, later⟩
    · exact absurd returns (not_returns_of_hasStopped rfl)

theorem gives_of_runNative {f : Value} {action : Action (List Value)}
    (returns : Returns host R (g :: B) (m.runNative host f action) vs m') (base : g.isBoundary)
    (uncaught : ∀ f ∈ pre, f.catches = false) (running : m.resumers = R)
    (stack : m.stack = pre ++ g :: B) :
    ∃ ws h' act thread threads, (action.run m.heap).Gives host R m.stack ws h' ∧
      Returns host R (g :: B) ⟨.give ws, act, m.stack, h', m.depth, m.room, thread, threads, R⟩ vs m' :=
  gives_of_continueNative base uncaught _ (action.grows m.heap) f { m with heap := default } running stack
    returns

/-! ## Library functions that neither call nor wait -/

/-- What a library function does depends on the course of its action. -/
theorem runNative_congr {a b : Action (List Value)} (same : a.run m.heap = b.run m.heap) (g : Value) :
    m.runNative host g a = m.runNative host g b := by
  obtain ⟨focus, act, stack, heap, depth, room, thread, threads, resumers⟩ := m
  have goes : ∀ {x y : Act (List Value)} (grows : x.Grows heap) (grows' : y.Grows heap), x = y →
      continueNative host g ⟨focus, act, stack, default, depth, room, thread, threads, resumers⟩ x grows =
        continueNative host g ⟨focus, act, stack, default, depth, room, thread, threads, resumers⟩ y grows' := by
    rintro x y grows grows' rfl
    rfl
  exact goes _ _ same

/-- A library function that is done at once gives its results. -/
theorem runNative_of_done {a : Action (List Value)} {vs : List Value} {h : Heap} (done : a.run m.heap = .done vs h)
    (g : Value) : m.runNative host g a = { m with focus := .give vs, heap := h } := by
  obtain ⟨focus, act, stack, heap, depth, room, thread, threads, resumers⟩ := m
  have goes : ∀ {x : Act (List Value)} (grows : x.Grows heap), x = .done vs h →
      continueNative host g ⟨focus, act, stack, default, depth, room, thread, threads, resumers⟩ x grows =
        ⟨.give vs, act, stack, h, depth, room, thread, threads, resumers⟩ := by
    rintro x grows rfl
    rfl
  exact goes _ done

/-- A library function that fails raises the error that its fault is. -/
theorem runNative_of_fault {a : Action (List Value)} {f : Fault} {h : Heap} (failed : a.run m.heap = .fail f h)
    (g : Value) : m.runNative host g a = { m with focus := .raise (nativeError h m.stack g f), heap := h } := by
  obtain ⟨focus, act, stack, heap, depth, room, thread, threads, resumers⟩ := m
  have goes : ∀ {x : Act (List Value)} (grows : x.Grows heap), x = .fail f h →
      continueNative host g ⟨focus, act, stack, default, depth, room, thread, threads, resumers⟩ x grows =
        ⟨.raise (nativeError h stack g f), act, stack, h, depth, room, thread, threads, resumers⟩ := by
    rintro x grows rfl
    rfl
  exact goes _ failed

/-- A library function that fails with an error value raises it. -/
theorem runNative_of_fail {a : Action (List Value)} {v : Value} {h : Heap}
    (failed : a.run m.heap = .fail (.value v) h) (g : Value) :
    m.runNative host g a = { m with focus := .raise v, heap := h } := runNative_of_fault failed g

/-- A library function that begins with a question goes on with the answer after what is noted, unless it would
have to wait where it cannot. -/
theorem runNative_ask {q : Query} {f : Reply → Action (List Value)} {m : Machine}
    (free : host.hasToWait m.heap.calls q = true → isYieldable m.stack = true) (g : Value) :
    m.runNative host g (Action.ask q >>= f) =
      runNative host { m with heap := m.heap.note (host.notes m.heap.calls q) } g
        (f (host.answer m.heap.calls q)) := by
  obtain ⟨focus, act, stack, heap, depth, room, thread, threads, resumers⟩ := m
  have asked : runNative host ⟨focus, act, stack, heap, depth, room, thread, threads, resumers⟩ g
      (Action.ask q >>= f) =
      if host.hasToWait heap.calls q && !isYieldable stack then
        ⟨.raise (.text "attempt to yield across a C-call boundary"), act, stack,
          heap.note (host.notes heap.calls q), depth, room, thread, threads, resumers⟩
      else
        runNative host
          ⟨focus, act, stack, heap.note (host.notes heap.calls q), depth, room, thread, threads, resumers⟩ g
          (f (host.answer heap.calls q)) := rfl
  have goes : ¬ (host.hasToWait heap.calls q && !isYieldable stack) = true := by
    rw [Bool.and_eq_true, Bool.not_eq_true']
    rintro ⟨waits, bound⟩
    exact Bool.false_ne_true (bound.symm.trans (free waits))
  rw [asked, if_neg goes]

/-- Where there is nothing to wait for and nothing to note, the function goes on with the answer. -/
theorem runNative_of_ask {q : Query} {f : Reply → Action (List Value)} {m : Machine}
    (ready : host.hasToWait m.heap.calls q = false) (silent : host.notes m.heap.calls q = []) (g : Value) :
    m.runNative host g (Action.ask q >>= f) = m.runNative host g (f (host.answer m.heap.calls q)) := by
  rw [runNative_ask (fun waits => absurd (ready.symm.trans waits) Bool.false_ne_true), silent]
  rfl

/-! ## Operations -/

/-- An operation that is done at once hands its results on. -/
theorem operate_of_done {action : Action (List Value)} {ws : List Value} {h : Heap}
    (done : action.run m.heap = .done ws h) (event : Event) (operands : List Code) (line : Nat)
    (want : Want) : m.operate action event operands line want = deliver { m with heap := h } want ws := by
  obtain ⟨focus, act, stack, heap, depth, room, thread, threads, resumers⟩ := m
  have goes : ∀ (a : Act (List Value)) (grows : a.Grows heap), a = .done ws h →
      continueOperation ⟨focus, act, stack, default, depth, room, thread, threads, resumers⟩ a grows event
        operands line want =
      deliver ⟨focus, act, stack, h, depth, room, thread, threads, resumers⟩ want ws := by
    rintro a grows rfl
    rfl
  exact goes _ _ done

/-- Two strings are compared as they are. -/
theorem binary_eq_string (m : Machine) (a b : ByteArray) (l r : Code) (line : Nat) :
    m.binary .eq (.string a) (.string b) l r line =
      m.giveValue (.bool (Value.string a == .string b)) := by
  have raw : (Value.string a).rawEq (.string b) = (Value.string a == .string b) := rfl
  have done : (single (Metamethod.operate .eq (.string a) (.string b))).run m.heap =
      .done [.bool (Value.string a == .string b)] m.heap := by
    simp only [single, Metamethod.operate, Metamethod.equal, raw]
    cases (Value.string a == Value.string b) with
    | true => rfl
    | false => rfl
  exact operate_of_done done .eq [l, r] line .one

/-- What is compared with nil is compared as it is. -/
theorem binary_ne_nil (m : Machine) (a : Value) (l r : Code) (line : Nat) :
    m.binary .ne a .nil l r line = m.giveValue (.bool (!(a == .nil))) := by
  have done : (single (Metamethod.operate .ne a .nil)).run m.heap = .done [.bool (!(a == .nil))] m.heap := by
    cases a with
    | nil => rfl
    | _ => rfl
  cases a with
  | nil => exact operate_of_done done .eq [l, r] line .one
  | _ => exact operate_of_done done .eq [l, r] line .one

/-- An operation that returns and asks nothing has given its results. -/
theorem gives_of_continueOperation (base : g.isBoundary) (uncaught : ∀ f ∈ pre, f.catches = false)
    {a : Act (List Value)} (quiet : a.Quiet) {h : Heap} (grows : a.Grows h) (event : Event)
    (operands : List Code) (line : Nat) (want : Want) {focus : Focus} {act : Activation} {S : List Frame}
    {depth room thread : Nat} {threads : Array ThreadState} (stack : S = pre ++ g :: B)
    (returns : Returns host R (g :: B) (continueOperation
      ⟨focus, act, S, default, depth, room, thread, threads, R⟩ a grows event operands line want) vs m') :
    ∃ ws h' focus thread threads, a.Gives host R S ws h' ∧ Returns host R (g :: B)
      (deliver ⟨focus, act, S, h', depth, room, thread, threads, R⟩ want ws) vs m' := by
  -- Along the course of the action: each call returns to the frame of the operation, which goes on.
  induction quiet generalizing h focus thread threads with
  | done ws h' => exact ⟨ws, h', focus, thread, threads, .done ws h', returns⟩
  | fail fault h' =>
    exact absurd returns (Returns.not_raise base rfl stack uncaught (.inl ⟨_, rfl⟩))
  | @call callee args h' next _ ih =>
    simp only [continueOperation] at returns
    have entered := returns.of_nest base rfl stack uncaught
    obtain ⟨ws, ⟨focus', act', stack', heap', depth', room', thread', threads', resumers'⟩, inner,
        running₁, stack₁, focus₁, rest⟩ :=
      entered.of_enter base rfl rfl rfl (congrArg (List.cons _) stack) uncaught
    obtain rfl : resumers' = R := running₁
    obtain rfl : stack' = _ := stack₁
    obtain rfl : focus' = .give ws := focus₁
    rw [← stack] at rest inner
    obtain ⟨us, h'', focus'', thread'', threads'', gives, later⟩ :=
      ih ws heap' (grows.after_call ws heap') rest
    exact ⟨us, h'', focus'', thread'', threads'', .call inner rfl rfl rfl rfl gives, later⟩

theorem gives_of_operate (base : g.isBoundary) (uncaught : ∀ f ∈ pre, f.catches = false)
    {action : Action (List Value)} (quiet : ∀ h, (action.run h).Quiet) {event : Event}
    {operands : List Code} {line : Nat} {want : Want} {focus : Focus} {act : Activation} {S : List Frame}
    {heap : Heap} {depth room thread : Nat} {threads : Array ThreadState} (stack : S = pre ++ g :: B)
    (returns : Returns host R (g :: B)
      (operate ⟨focus, act, S, heap, depth, room, thread, threads, R⟩ action event operands line want)
      vs m') :
    ∃ ws h' focus thread threads, (action.run heap).Gives host R S ws h' ∧ Returns host R (g :: B)
      (deliver ⟨focus, act, S, h', depth, room, thread, threads, R⟩ want ws) vs m' :=
  gives_of_continueOperation base uncaught (quiet heap) (action.grows heap) event operands line want stack
    returns

/-! ## Access -/

theorem quiet_indexFrom (position fuel : Nat) (object key : Value) (h : Heap) :
    ((Metamethod.indexFrom position fuel object key).run h).Quiet := by
  induction fuel generalizing position object with
  | zero => exact .fail _ _
  | succ fuel ih =>
    have calls : ∀ f, ((Action.call1 f [object, key]).run h).Quiet := fun f =>
      .call fun vs h => .done _ _
    simp only [Metamethod.indexFrom]
    split
    · split
      · exact .done _ _
      · split
        · exact .done _ _
        · split
          · exact calls _
          · exact ih _ _
    · split
      · exact .fail _ _
      · split
        · exact calls _
        · exact ih _ _

/-- The value is found in the table itself, or there is no metatable that could give another one. -/
theorem index_direct {h : Heap} {r : Nat} {key : Value}
    (direct : (!(h.rawGet r key).isNil || ((h.table r).metatable?).isNone) = true) :
    (Metamethod.index (.table r) key).run h = .done (h.rawGet r key) h := by
  have first : Metamethod.index (.table r) key = Metamethod.indexFrom 0 (1999 + 1) (.table r) key := rfl
  rw [first, Metamethod.indexFrom]
  simp only []
  split
  · rfl
  · rename_i absent
    have bare' : (h.table r).metatable? = none := by simpa [absent] using direct
    have missing : h.rawGet r key = .nil := by
      generalize h.rawGet r key = v at absent
      cases v with
      | nil => rfl
      | _ => exact absurd rfl absent
    have bare : h.metafield (.table r) Event.indexKey = .nil := by
      simp only [Heap.metafield, Heap.metatable?, bare']
    simp only [bare, missing]

/-- An access that returns gives the value that the object has under the key, metamethods counted. -/
theorem gives_of_index {r : Nat} {key : Value} {code : Code} {line : Nat} {focus : Focus}
    {act : Activation} {S : List Frame} {heap : Heap} {depth room thread : Nat}
    {threads : Array ThreadState}
    (returns : Returns host R (g :: B)
      (index ⟨focus, act, S, heap, depth, room, thread, threads, R⟩ (.table r) key code line) vs m')
    (base : g.isBoundary) (uncaught : ∀ f ∈ pre, f.catches = false) (stack : S = pre ++ g :: B) :
    ∃ x h' thread threads, ((Metamethod.index (.table r) key).run heap).Gives host R S x h' ∧
      Returns host R (g :: B) ⟨.value x, act, S, h', depth, room, thread, threads, R⟩ vs m' := by
  simp only [index] at returns
  split at returns
  · rename_i direct
    rw [index_direct direct]
    exact ⟨_, heap, thread, threads, .done _ _, returns⟩
  · obtain ⟨ws, h', focus, thread, threads, gives, rest⟩ :=
      gives_of_operate base uncaught (fun h => (quiet_indexFrom 0 _ _ key h).bind fun a h => .done _ _)
        stack returns
    obtain ⟨x, h₁, found, ends⟩ := gives.of_bind
    obtain ⟨rfl, rfl⟩ := ends.eq_of_done
    exact ⟨x, h', thread, threads, found, rest⟩

/-- A field of a table that the running function carries along is fetched at once. -/
theorem step_fetch (host : Host) {i g line : Nat} {label : ByteArray} {key v : Value}
    (object : m.readCarried i = .table g) (found : m.heap.rawGet g key = v) (solid : v.isNil = false) :
    step host { m with focus := .eval (.index (.carried i label) (.const key) line) } =
      { m with focus := .value v } := by
  have indexed : step host { m with focus := .eval (.index (.carried i label) (.const key) line) } =
      index { m with focus := .done } (m.readCarried i) key (.carried i label) line := rfl
  rw [indexed, object]
  simp only [index, found, solid, Bool.not_false, Bool.true_or, if_true]
  rfl

/-- A field of a table that is a field itself: one step to the table, one to fetch it, and one to its field. -/
theorem step_fetchField (host : Host) {i g r line : Nat} {label : ByteArray} {key key' v : Value}
    (object : m.readCarried i = .table g) (found : m.heap.rawGet g key = .table r)
    (held : m.heap.rawGet r key' = v) (solid : v.isNil = false) :
    (step host)^[3] { m with
        focus := .eval (.index (.index (.carried i label) (.const key) line) (.const key') line) } =
      { m with focus := .value v } := by
  let waiting : Machine :=
    { m with stack := .indexKey (.index (.carried i label) (.const key) line) (.const key') line :: m.stack }
  have begun : step host { m with
        focus := .eval (.index (.index (.carried i label) (.const key) line) (.const key') line) } =
      { waiting with focus := .eval (.index (.carried i label) (.const key) line) } := rfl
  have fetched : step host { waiting with focus := .eval (.index (.carried i label) (.const key) line) } =
      { waiting with focus := .value (.table r) } := step_fetch host (m := waiting) object found rfl
  have indexed : step host { waiting with focus := .value (.table r) } =
      index { m with focus := .done } (.table r) key' (.index (.carried i label) (.const key) line) line := rfl
  rw [Function.iterate_succ_apply, begun, Function.iterate_succ_apply, fetched, Function.iterate_one, indexed]
  simp only [index, held, solid, Bool.not_false, Bool.true_or, if_true]
  rfl

end Machine

end VaultConsole.Lua
