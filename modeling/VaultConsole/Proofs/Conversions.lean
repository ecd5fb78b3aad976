import VaultConsole.Proofs.Banner
import VaultConsole.Proofs.Printing

/-!
# Conversions and tostring

Print and log show a string at once, and call `tostring` for any other value. `Awaits` says how they call it and how
they go on with what it returns. `shows_as_tostring` puts the two ways side by side: a string is shown with what is no
UTF-8 in it replaced, but a string that `tostring` returns has to be UTF-8. `tostring_not_shown` is a value whose
spelling is not.
-/

namespace VaultConsole

namespace Lua

/-- The functions that show a value. -/
inductive Showing where
  | print
  | log
  deriving DecidableEq, Repr

namespace Showing

def function : Showing → HostFunction
  | print => .print
  | log => .log

/-- What is done with the text of the value. -/
def record (text : String) (h : Heap) : Showing → Heap
  | print => h.print text
  | log => h.log text

/-- What is given back. -/
def results (v : Value) : Showing → List Value
  | print => []
  | log => [v]

end Showing

namespace Library

variable {h : Heap} {v : Value}

/-- A value is shown by its text. -/
theorem run_showing (s : Showing) (v : Value) (h : Heap) :
    (host s.function [v]).run h = ((shownText v).run h).bind fun text h => .done (s.results v) (s.record text h) := by
  cases s with
  | log => rfl
  | print => exact Act.bind_assoc _ _ _

/-- Whatever metamethods are called for a text, `tostring` wraps the bytes up as one string. -/
theorem run_tostring (level : Nat) (v : Value) (h : Heap) : (run level (.base .tostring) [v]).run h =
    ((Metamethod.toText v).run h).bind fun bytes h => .done [.string bytes] h := rfl

/-- A string that is no UTF-8 has no text. -/
theorem textOf_of_invalid {bytes : ByteArray} {fault : Text.Utf8.Fault}
    (invalid : Text.Utf8.decode bytes = .error fault) :
    textOf (.string bytes) = .error (.conversion "string" "String" (some fault.message)) := by
  simp only [textOf, Value.toBytes?, invalid]
  rfl

/-- An error that is known to the host needs no text. -/
theorem run_raisedError {w : Value} {e : ScriptError} (known : toldError? h w = some e) :
    (raisedError maxRaised w).run h = .done e h := by
  have first : (Action.inspect (toldError? · w)).run h = .done (some e) h := congrArg (Act.done · h) known
  exact Action.run_bind_of_done first _

/-- What becomes of a conversion when the call of `tostring` has come back. -/
theorem run_shownText (other : ∀ bytes, v ≠ .string bytes)
    (plain : h.rawGet h.globals (.text "tostring") = .builtin (.base .tostring)) :
    ∃ next, (shownText v).run h = .call (.builtin (.base .pcall)) [.builtin (.base .tostring), v] h next ∧
      (∀ bytes text h', Text.Utf8.decode bytes = .ok text → next [.bool true, .string bytes] h' = .done text h') ∧
      (∀ bytes fault h', Text.Utf8.decode bytes = .error fault → next [.bool true, .string bytes] h' =
        (failHost (.conversion "string" "String" (some fault.message)) : Action String).run h') ∧
      ∀ w h', next [.bool false, w] h' =
        ((raisedError maxRaised w).run h').bind fun e h => (failHost e : Action String).run h := by
  have global := run_globalValue plain rfl
  unfold shownText
  split
  · exact absurd rfl (other _)
  · refine ⟨_, (Action.run_bind_of_done global _).trans rfl, fun bytes text h' decoded => ?_,
      fun bytes fault h' invalid => ?_, fun w h' => ?_⟩
    · simp only [Act.bind, Action.run_pure, List.headD_cons, textOf_of_decode decoded]
    · simp only [Act.bind, Action.run_pure, List.headD_cons, textOf_of_invalid invalid]
    · exact Act.bind_assoc ((raisedError maxRaised w).run h')
        (fun e h => .done (Except.error e : Except ScriptError (List Value)) h) _

end Library

/-- A new session finds the functions of the language under their names. -/
theorem Session.rawGet_base (limit? : Option Nat) : ∀ e ∈ Library.baseFunctions,
    (fresh limit?).heap.rawGet (fresh limit?).heap.globals (.text e.1) = .builtin (.base e.2) := by
  intro e there
  obtain ⟨globals, -, -, record, ⟨base, -⟩, -⟩ := Library.exists_globals limit?
  exact rawGet_fresh limit? record (base (List.mem_map_of_mem there))

namespace Machine

variable {host : Host} {s : Showing} {m m' : Machine} {v : Value} {F : Frame}

/-! ## The call of tostring -/

/-- A machine that converts a value for a function which waits in a frame: `tostring` is called with errors
caught. -/
def converting (m : Machine) (F : Frame) (v : Value) : Machine :=
  { m with
    focus := .enter (.builtin (.base .tostring)) [v]
    stack := .protect none (m.depth + 1) m.room :: F :: m.stack
    depth := m.depth + 2 }

/-- A call that does not nest too deeply is made. -/
theorem nest_of_lt {place : ByteArray} {go : Machine → Machine} (shallow : m.depth + 1 < maxDepth) :
    nest m place go = go { m with depth := m.depth + 1 } := by
  have below : maxDepth < maxErrorDepth := by decide
  obtain ⟨full, -⟩ | ⟨deep, -⟩ | called := nest_cases m place go
  · omega
  · omega
  · exact called

/-- A function that shows a value converts it first. -/
theorem step_showing (host : Host) (invokes : m.Invokes (.host s.function) [v] m') :
    ∃ grows, m.step host = continueNative host (.builtin (.host s.function)) { m' with heap := default }
      (h := m.heap)
      (((Library.shownText v).run m.heap).bind fun text h => .done (s.results v) (s.record text h)) grows := by
  have begins : m.step host = m'.runNative host (.builtin (.host s.function)) (Library.host s.function [v]) :=
    step_of_invokes host invokes
  rw [begins, ← invokes.heap]
  exact exists_continueNative host _ _ _ (Library.run_showing s v m'.heap)

/-- The error of a text that is not UTF-8. -/
def invalidText (fault : Text.Utf8.Fault) : ScriptError :=
  .callback Library.traceback (.conversion "string" "String" (some fault.message))

/-- How a function that shows a value converts it: the first two steps call `tostring` with errors caught, above a
frame that waits for it, and this is how it goes on when the call has come back there. -/
structure Awaits (host : Host) (s : Showing) (v : Value) (m m' : Machine) (F : Frame) : Prop where
  /-- Nothing can leave the coroutine meanwhile. -/
  held : isYieldable (F :: m'.stack) = false
  begins : m.step host =
    { m' with
      focus := .enter (.builtin (.base .pcall)) [.builtin (.base .tostring), v], stack := F :: m'.stack
      depth := m'.depth + 1 }
  calls : (step host)^[2] m = m'.converting F v
  shows : ∀ {m : Machine} {bytes : ByteArray} {text : String},
    Arrives m'.resumers (F :: m'.stack) m [.bool true, .string bytes] → Text.Utf8.decode bytes = .ok text →
    m.step host =
      { m with
        focus := .give (s.results v), stack := m'.stack, heap := s.record text m.heap
        depth := m'.depth, room := m'.room }
  refuses : ∀ {m : Machine} {bytes : ByteArray} {fault : Text.Utf8.Fault},
    Arrives m'.resumers (F :: m'.stack) m [.bool true, .string bytes] → Text.Utf8.decode bytes = .error fault →
    m.step host =
      { m with
        focus := .raise (.failure m.heap.failures.size), stack := m'.stack
        heap := (m.heap.newFailure (invalidText fault)).1, depth := m'.depth, room := m'.room }
  /-- An error that is known to the host is raised at once. -/
  tells : ∀ {m : Machine} {w : Value} {e : ScriptError}, Arrives m'.resumers (F :: m'.stack) m [.bool false, w] →
    Library.toldError? m.heap w = some e →
    m.step host =
      { m with
        focus := .raise (.failure m.heap.failures.size), stack := m'.stack
        heap := (m.heap.newFailure (.callback Library.traceback e)).1, depth := m'.depth, room := m'.room }
  /-- Any other is told, which may call values again, and is raised then. -/
  fails : ∀ {m : Machine} {w : Value}, Arrives m'.resumers (F :: m'.stack) m [.bool false, w] →
    Course host m'.resumers m'.stack m fun _ after =>
      after.stack = m'.stack ∧ after.resumers = m'.resumers ∧ ∃ e, after.focus = .raise e ∨ after.focus = .unwind e

/-- A library function that tells an error raises it in the end: the text of the error may be asked for by calls, but
these have their errors caught. -/
theorem course_of_telling {R : List Resumer} {S : List Frame} {g w : Value} {next : List Value → Action (List Value)}
    {depth room : Nat} {goes : String → Heap → Act (List Value)}
    (arrives : Arrives R (.native g next depth room :: S) m [.bool false, w])
    (told : (next [.bool false, w]).run m.heap = (((Library.raisedError Library.maxRaised w).run m.heap).bind
      fun e h => (Library.failHost e : Action String).run h).bind goes) :
    Course host R S m fun _ after =>
      after.stack = S ∧ after.resumers = R ∧ ∃ e, after.focus = .raise e ∨ after.focus = .unwind e := by
  have guarded : (((Library.raisedError Library.maxRaised w).run m.heap).bind
      fun e h => (Library.failHost e : Action String).run h).Guarded m.heap.printed :=
    (Library.guarded_raisedError _ w m.heap).bind fun e h => Library.guarded_failHost e h
  obtain ⟨grows, goes⟩ := exists_continueNative host g
    { m with focus := .done, stack := S, heap := default, depth := depth, room := room }
    ((next [.bool false, w]).grows m.heap) told
  have resumes : m.step host = _ := (step_native arrives).trans goes
  refine (course_of_guarded guarded grows resumes rfl rfl arrives.1).imp fun last after ends => ?_
  cases ends with
  | gives text m grows gives =>
    obtain ⟨e, h, -, last⟩ := gives.of_bind
    cases last
  | fails e fails captured stack running raised => exact ⟨stack, running, e, raised⟩

/-- A value that is no string is converted by `tostring`, if that is the value of the global. -/
theorem exists_awaits (host : Host) (invokes : m.Invokes (.host s.function) [v] m')
    (other : ∀ bytes, v ≠ .string bytes)
    (plain : m.heap.rawGet m.heap.globals (.text "tostring") = .builtin (.base .tostring))
    (shallow : m'.depth + 2 < maxDepth) :
    ∃ F, Awaits host s v m m' F := by
  obtain ⟨next, run, told, refused, failed⟩ := Library.run_shownText other plain
  obtain ⟨grows, begins⟩ := step_showing host invokes
  have heap := invokes.heap
  obtain ⟨focus, act, stack, heap', depth, room, thread, threads, resumers⟩ := m'
  obtain rfl : heap' = m.heap := heap
  let writes (text : String) (h : Heap) : Act (List Value) := .done (s.results v) (s.record text h)
  generalize converts : (Library.shownText v).run m.heap = x at grows begins run
  subst run
  -- The frame of the function holds the rest of its action, and the nesting it goes back to.
  let F : Frame := .native (.builtin (.host s.function))
    (fun vs => ⟨fun h => (next vs h).bind writes, grows.after_call vs⟩) depth room
  have pcalls : m.step host = ⟨.enter (.builtin (.base .pcall)) [.builtin (.base .tostring), v], act, F :: stack,
      m.heap, depth + 1, room, thread, threads, resumers⟩ := by
    have nested : m.step host = nest ⟨focus, act, stack, m.heap, depth, room, thread, threads, resumers⟩
        ByteArray.empty fun m =>
          { m with
            focus := .enter (.builtin (.base .pcall)) [.builtin (.base .tostring), v], stack := F :: m.stack } :=
      begins
    have fits : depth + 1 < maxDepth := Nat.lt_of_succ_lt shallow
    rw [nested, nest_of_lt fits]
  refine ⟨F, rfl, pcalls, ?_, ?_, ?_, ?_, ?_⟩
  · -- The second step puts down the place that catches errors, and nests once more.
    have nested : step host (m.step host) = nest ⟨.done, act, .protect none (depth + 1) room :: F :: stack, m.heap,
        depth + 1, room, thread, threads, resumers⟩ ByteArray.empty fun m =>
          { m with focus := .enter (.builtin (.base .tostring)) [v] } := by
      rw [pcalls]
      rfl
    have two : (step host)^[2] m = step host (m.step host) := rfl
    rw [two, nested, nest_of_lt shallow]
    rfl
  · intro m bytes text arrives decoded
    rw [step_native arrives]
    refine runNative_of_done ?_ _
    show (next [.bool true, .string bytes] m.heap).bind writes = _
    rw [told bytes text m.heap decoded]
    rfl
  · intro m bytes fault arrives invalid
    rw [step_native arrives]
    refine runNative_of_fail ?_ _
    show (next [.bool true, .string bytes] m.heap).bind writes = _
    rw [refused bytes fault m.heap invalid]
    rfl
  · intro m w e arrives known
    rw [step_native arrives]
    refine runNative_of_fail ?_ _
    show (next [.bool false, w] m.heap).bind writes = _
    rw [failed w m.heap, Library.run_raisedError known]
    rfl
  · intro m w arrives
    exact course_of_telling arrives (congrArg (Act.bind · writes) (failed w m.heap))

/-- What `tostring` returns is one string. -/
theorem returns_tostring {R : List Resumer} {B : List Frame} {g : Frame} {vs : List Value}
    (returns : Returns host R (g :: B) m vs m') (base : g.isBoundary)
    (enters : m.focus = .enter (.builtin (.base .tostring)) [v]) (stack : m.stack = g :: B) (running : m.resumers = R) :
    ∃ bytes, vs = [.string bytes] := by
  have begins : m.step host = runNative host { m with focus := .done } (.builtin (.base .tostring))
      (Library.run m.depth (.base .tostring) [v]) := by
    obtain ⟨focus, act, stack, heap, depth, room, thread, threads, resumers⟩ := m
    obtain rfl : focus = _ := enters
    rfl
  have next := returns.step (not_arrives_of_enter enters)
  rw [begins] at next
  obtain ⟨ws, h, act, thread, threads, gives, finished⟩ := gives_of_runNative next base (by simp) running
    (show m.stack = [] ++ g :: B from stack)
  obtain ⟨rfl, -⟩ := finished.eq_of_arrives ⟨rfl, stack, rfl⟩
  rw [Library.run_tostring] at gives
  obtain ⟨bytes, h', -, last⟩ := gives.of_bind
  exact ⟨bytes, last.eq_of_done.1⟩

/-! ## Values that are shown -/

/-- The function that is called in the next step comes back to a stack with values, and leaves a heap. -/
def ComesBack (host : Host) (R : List Resumer) (S : List Frame) (m : Machine) (vs : List Value) (h : Heap) : Prop :=
  ∃ n, (∀ k, k < n → Within R S ((step host)^[k + 1] m)) ∧ Arrives R S ((step host)^[n + 1] m) vs ∧
    ((step host)^[n + 1] m).heap = h

/-- The function that is called in the next step comes back with an error. -/
def ComesToFail (host : Host) (R : List Resumer) (S : List Frame) (m : Machine) (e : Value) (h : Heap) : Prop :=
  ∃ n, (∀ k, k < n → Within R S ((step host)^[k + 1] m)) ∧ ((step host)^[n + 1] m).resumers = R ∧
    ((step host)^[n + 1] m).stack = S ∧ ((step host)^[n + 1] m).focus = .raise e ∧ ((step host)^[n + 1] m).heap = h

namespace Awaits

/-- While `tostring` goes on, and until its results have come back to the frame that waits, the machine is above the
stack of the caller. -/
theorem within (awaits : Awaits host s v m m' F) {n : Nat}
    (inside : ∀ k, k < n → Above m'.resumers (m'.converting F v).stack ((step host)^[k] (m'.converting F v)) ∧
      ¬ ((step host)^[k] (m'.converting F v)).hasEnded) :
    ∀ k, k < n + 1 → Within m'.resumers m'.stack ((step host)^[k + 1] m) := by
  intro k below
  cases k with
  | zero =>
    have first : (step host)^[0 + 1] m = _ := awaits.begins
    rw [first]
    exact ⟨⟨F, [], .running rfl rfl⟩, Bool.false_ne_true⟩
  | succ k =>
    obtain ⟨above, alive⟩ := inside k (Nat.lt_of_succ_lt_succ below)
    rw [Function.iterate_add_apply _ k 2, awaits.calls]
    exact ⟨⟨F, above.below⟩, alive⟩

/-- When the call has come back, its results are given to the frame that waits. -/
theorem comes_back (awaits : Awaits host s v m m' F) {n : Nat} {ws : List Value}
    (inside : ∀ k, k ≤ n → Above m'.resumers (m'.converting F v).stack ((step host)^[k] (m'.converting F v)) ∧
      ¬ ((step host)^[k] (m'.converting F v)).hasEnded)
    (gives : (step host)^[n + 1] (m'.converting F v) =
      { (step host)^[n] (m'.converting F v) with
        focus := .give ws, stack := F :: m'.stack, depth := m'.depth + 1, room := m'.room })
    (running : ((step host)^[n] (m'.converting F v)).resumers = m'.resumers) :
    (∀ k, k < n + 3 → Within m'.resumers m'.stack ((step host)^[k + 1] m)) ∧
      Arrives m'.resumers (F :: m'.stack) ((step host)^[n + 3] m) ws ∧
      ((step host)^[n + 3] m).heap = ((step host)^[n] (m'.converting F v)).heap := by
  have later : (step host)^[n + 3] m = (step host)^[n + 1] (m'.converting F v) := by
    rw [show n + 3 = n + 1 + 2 by omega, Function.iterate_add_apply _ (n + 1) 2, awaits.calls]
  have arrives : Arrives m'.resumers (F :: m'.stack) ((step host)^[n + 3] m) ws := by
    rw [later, gives]
    exact ⟨running, rfl, rfl⟩
  refine ⟨fun k below => ?_, arrives, by rw [later, gives]⟩
  obtain before | rfl : k < n + 1 + 1 ∨ k = n + 2 := by omega
  · exact awaits.within (fun i below => inside i (by omega)) k before
  · refine ⟨⟨F, [], .running arrives.1 arrives.2.1⟩, ?_⟩
    rw [hasEnded, arrives.2.2]
    exact Bool.false_ne_true

/-- When `tostring` has returned, that is told to the frame that waits. -/
theorem comes_back_of_returns (awaits : Awaits host s v m m' F) {T : Machine} {ws : List Value}
    (returns : Returns host m'.resumers (m'.converting F v).stack (m'.converting F v) ws T) :
    ∃ n, (∀ k, k < n + 3 → Within m'.resumers m'.stack ((step host)^[k + 1] m)) ∧
      Arrives m'.resumers (F :: m'.stack) ((step host)^[n + 3] m) (.bool true :: ws) ∧
      ((step host)^[n + 3] m).heap = T.heap := by
  obtain ⟨n, rfl, inside⟩ := exists_steps returns
  refine ⟨n, awaits.comes_back inside ?_ returns.arrives.1⟩
  rw [Function.iterate_succ_apply']
  exact step_of_arrives returns.arrives

/-- A text of `tostring` that is UTF-8 is shown. -/
theorem shown (awaits : Awaits host s v m m' F) {T : Machine} {bytes : ByteArray} {text : String}
    (returns : Returns host m'.resumers (m'.converting F v).stack (m'.converting F v) [.string bytes] T)
    (decoded : Text.Utf8.decode bytes = .ok text) :
    ComesBack host m'.resumers m'.stack m (s.results v) (s.record text T.heap) := by
  obtain ⟨n, inside, arrives, heap⟩ := awaits.comes_back_of_returns returns
  have finished := awaits.shows arrives decoded
  rw [← Function.iterate_succ_apply' (step host)] at finished
  refine ⟨n + 3, inside, ?_, ?_⟩
  · rw [finished]
    exact ⟨arrives.1, rfl, rfl⟩
  · rw [finished, ← heap]

/-- One that is not is refused. -/
theorem refused (awaits : Awaits host s v m m' F) {T : Machine} {bytes : ByteArray} {fault : Text.Utf8.Fault}
    (returns : Returns host m'.resumers (m'.converting F v).stack (m'.converting F v) [.string bytes] T)
    (invalid : Text.Utf8.decode bytes = .error fault) :
    ComesToFail host m'.resumers m'.stack m (.failure T.heap.failures.size)
      (T.heap.newFailure (invalidText fault)).1 := by
  obtain ⟨n, inside, arrives, heap⟩ := awaits.comes_back_of_returns returns
  have finished := awaits.refuses arrives invalid
  rw [← Function.iterate_succ_apply' (step host), heap] at finished
  refine ⟨n + 3, inside, ?_⟩
  rw [finished]
  exact ⟨arrives.1, rfl, rfl, rfl⟩

/-- What a function shows is a text that `tostring` has returned. -/
theorem of_comesBack (awaits : Awaits host s v m m' F) {vs : List Value} {h : Heap}
    (comes : ComesBack host m'.resumers m'.stack m vs h) :
    ∃ bytes text T, Returns host m'.resumers (m'.converting F v).stack (m'.converting F v) [.string bytes] T ∧
      Text.Utf8.decode bytes = .ok text ∧ vs = s.results v ∧ h = s.record text T.heap := by
  obtain ⟨j, within, back, heap⟩ := comes
  have out := not_within back.1 back.2.1
  -- How the run of `tostring` goes on tells how the function does, and only the first way comes back with values.
  obtain stays | ⟨n, ws, inside, gives, running, ⟨ws, rfl, returns⟩ | ⟨w, rfl, escapes⟩⟩ :=
    protected_course host (.inr awaits.held) (m := m'.converting F v) rfl rfl Bool.false_ne_true
  · exact absurd (awaits.within (n := j + 1) (fun k _ => stays k) j (by omega)) out
  · obtain ⟨bytes, rfl⟩ := returns_tostring returns rfl rfl rfl rfl
    cases decoded : Text.Utf8.decode bytes with
    | ok text =>
      obtain ⟨i, within', back', heap'⟩ := awaits.shown returns decoded
      obtain rfl := eq_of_within within out within' (not_within back'.1 back'.2.1)
      have same := back.2.2.symm.trans back'.2.2
      exact ⟨bytes, text, _, returns, decoded, Focus.give.inj same, heap.symm.trans heap'⟩
    | error fault =>
      obtain ⟨i, within', running', stack', raised, -⟩ := awaits.refused returns decoded
      obtain rfl := eq_of_within within out within' (not_within running' stack')
      have same := back.2.2.symm.trans raised
      cases same
  · -- The error of `tostring` is told, and raised.
    obtain ⟨within', arrives, -⟩ := awaits.comes_back inside gives running
    obtain stays | ⟨i, within'', stack', running', e, raised⟩ := (awaits.fails arrives).of_later within'
    · exact absurd (stays j) out
    · obtain rfl := eq_of_within within out within'' (not_within running' stack')
      rw [back.2.2] at raised
      obtain raised | raised := raised
      · cases raised
      · cases raised

end Awaits

/-- The call of `tostring`, which a function that shows a value makes above a frame, returns a string. -/
def Spells (host : Host) (F : Frame) (m : Machine) (v : Value) (bytes : ByteArray) (T : Machine) : Prop :=
  Returns host m.resumers (m.converting F v).stack (m.converting F v) [.string bytes] T

/-- **Values are shown as `tostring` spells them**, as far as that is UTF-8. A string is shown at once, with what is
no UTF-8 in it replaced. Any other value is converted by `tostring`, if that is the value of the global and calls do
not nest too deeply: print and log come back if and only if `tostring` returns a string that is UTF-8, and then have
shown that text; where it returns another one, they fail with a conversion error. -/
theorem shows_as_tostring (host : Host) (s : Showing) {m m' : Machine} {v : Value}
    (invokes : m.Invokes (.host s.function) [v] m') :
    (∀ bytes, v = .string bytes → m.step host =
      { m' with focus := .give (s.results v), heap := s.record (Text.Utf8.lossy bytes) m.heap }) ∧
    ((∀ bytes, v ≠ .string bytes) →
      m.heap.rawGet m.heap.globals (.text "tostring") = .builtin (.base .tostring) →
      m'.depth + 2 < maxDepth →
      ∃ F, (step host)^[2] m = m'.converting F v ∧
        (∀ ws T, Returns host m'.resumers (m'.converting F v).stack (m'.converting F v) ws T →
          ∃ bytes, ws = [.string bytes]) ∧
        (∀ vs h, ComesBack host m'.resumers m'.stack m vs h ↔ ∃ bytes text T, Spells host F m' v bytes T ∧
          Text.Utf8.decode bytes = .ok text ∧ vs = s.results v ∧ h = s.record text T.heap) ∧
        ∀ bytes fault T, Spells host F m' v bytes T → Text.Utf8.decode bytes = .error fault →
          ComesToFail host m'.resumers m'.stack m (.failure T.heap.failures.size)
            (T.heap.newFailure (invalidText fault)).1) := by
  constructor
  · rintro bytes rfl
    obtain ⟨grows, begins⟩ := step_showing host invokes
    exact begins
  · intro other plain shallow
    obtain ⟨F, awaits⟩ := exists_awaits host invokes other plain shallow
    refine ⟨F, awaits.calls, fun ws T returns => returns_tostring returns rfl rfl rfl rfl, fun vs h => ⟨?_, ?_⟩, ?_⟩
    · exact awaits.of_comesBack
    · rintro ⟨bytes, text, T, spells, decoded, rfl, rfl⟩
      exact awaits.shown spells decoded
    · exact fun bytes fault T spells invalid => awaits.refused spells invalid

/-- Where no metamethod is called, `tostring` returns at once. -/
theorem spells_of_done (host : Host) (F : Frame) {m : Machine} {v : Value} {bytes : ByteArray} {h : Heap}
    (done : (Metamethod.toText v).run m.heap = .done bytes h) :
    Spells host F m v bytes { m.converting F v with focus := .give [.string bytes], heap := h } := by
  have finished : step host (m.converting F v) =
      { m.converting F v with focus := .give [.string bytes], heap := h } := by
    refine runNative_of_done (m := { m.converting F v with focus := .done }) ?_ (.builtin (.base .tostring))
    refine (Library.run_tostring _ v m.heap).trans ?_
    rw [done]
    rfl
  refine .later ⟨[], .running rfl rfl⟩ (not_arrives_of_enter rfl) ?_
  rw [finished]
  exact .here ⟨rfl, rfl, rfl⟩

/-- A machine that is about to print a value. -/
def showing (h : Heap) (v : Value) : Machine :=
  { (default : Machine) with focus := .enter (.builtin (.host .print)) [v], heap := h }

theorem showing_invokes (h : Heap) (v : Value) :
    (showing h v).Invokes (.host Showing.print.function) [v] { showing h v with focus := .done } :=
  (Calls.enter (showing h v) _ _).invokes

/-- A number is printed as it is spelled. -/
theorem shows_as_tostring_int :
    (showing (Session.fresh none).heap (.int 1)).Invokes (.host Showing.print.function) [.int 1]
        { showing (Session.fresh none).heap (.int 1) with focus := .done } ∧
      ∀ host, ∃ h, ComesBack host [] [] (showing (Session.fresh none).heap (.int 1)) [] h ∧
        h.printed.lines = ["1"] := by
  have plain := Session.rawGet_base none ("tostring", .tostring) (by decide)
  refine ⟨showing_invokes _ _, fun host => ?_⟩
  obtain ⟨F, -, -, shows, -⟩ := (shows_as_tostring host .print (showing_invokes (Session.fresh none).heap (.int 1))).2
    (fun _ => Value.noConfusion) plain (show 0 + 2 < maxDepth by decide)
  have spelled : (Metamethod.toText (.int 1)).run (Session.fresh none).heap =
      .done ((Number.int 1).text.toUTF8) (Session.fresh none).heap := rfl
  refine ⟨_, (shows _ _).2 ⟨_, _, _, spells_of_done host F spelled, Text.Utf8.decode_eq_ok.2 rfl, rfl, rfl⟩, ?_⟩
  have text : (Number.int 1).text = "1" := by decide +kernel
  exact congrArg (fun t => [t]) text

end Machine

/-! ## A value that cannot be shown -/

namespace Heap

/-- The heap when a script has made a table with a metatable. -/
def withMeta (h : Heap) (t : Table) : Heap :=
  ((h.newTable t).1.newTable { Table.empty with metatable? := some h.tables.size }).1

theorem table_withMeta (h : Heap) (t : Table) {r : Nat} (before : r < h.tables.size) :
    (h.withMeta t).table r = h.table r := by
  have size := h.size_newTable t
  rw [withMeta, table_newTable_of_lt _ _ (by omega), table_newTable_of_lt h _ before]

theorem metafield_withMeta (h : Heap) (t : Table) (name : ByteArray) :
    (h.withMeta t).metafield (.table (h.tables.size + 1)) name = t.get (.string name) := by
  have size := h.size_newTable t
  have entries : (h.withMeta t).table h.tables.size = t := by
    rw [withMeta, table_newTable_of_lt _ _ (by omega), table_newTable]
  have here : (h.withMeta t).table (h.tables.size + 1) =
      { Table.empty with metatable? := some h.tables.size } := by
    rw [withMeta, ← size, table_newTable]
  have found : (h.withMeta t).metatable? (.table (h.tables.size + 1)) = some h.tables.size := by
    rw [metatable?, here]
  rw [metafield, found]
  exact congrArg (Table.get · (.string name)) entries

/-- A metatable in which there is a name that is no UTF-8. -/
def naming : Table := Library.tableOf [("__name", .string ⟨#[255]⟩)]

theorem isRecord_naming : naming.IsRecord [("__name", .string ⟨#[255]⟩)] :=
  Table.isRecord_tableOf (by decide) (by decide)

/-- The heap when a script has made a table with this metatable. -/
def withNamed (h : Heap) : Heap := h.withMeta naming

/-- The string that `tostring` returns for the table: its name comes first. -/
def namedText (h : Heap) : ByteArray :=
  (beforeNul (ByteArray.mk #[255]).toList).toByteArray ++
    (": " ++ Metamethod.addressText (.table (h.tables.size + 1))).toUTF8

variable (h : Heap)

theorem toText_withNamed : (Metamethod.toText (.table (h.tables.size + 1))).run h.withNamed =
    .done h.namedText h.withNamed := by
  have absent : h.withNamed.metafield (.table (h.tables.size + 1)) "__tostring".toUTF8 = .nil := by
    rw [withNamed, metafield_withMeta]
    exact isRecord_naming.get (.text "__tostring")
  have named : h.withNamed.metafield (.table (h.tables.size + 1)) nameKey = .string ⟨#[255]⟩ := by
    rw [withNamed, metafield_withMeta]
    exact isRecord_naming.get_text List.mem_cons_self
  have first : (Action.inspect (·.metafield (.table (h.tables.size + 1)) "__tostring".toUTF8)).run h.withNamed =
      .done .nil h.withNamed := congrArg (Act.done · h.withNamed) absent
  unfold Metamethod.toText
  rw [Action.run_bind_of_done first]
  refine (Action.run_bind_inspect _ _ _).trans ?_
  rw [named]
  rfl

/-- The first byte of this string begins no character. -/
theorem decode_namedText : Text.Utf8.decode h.namedText = .error ⟨0, some 1⟩ := by
  have name : (beforeNul (ByteArray.mk #[255]).toList).toByteArray = ⟨#[255]⟩ := by decide +kernel
  have bytes : h.namedText.toList =
      255 :: (": " ++ Metamethod.addressText (.table (h.tables.size + 1))).toUTF8.data.toList := by
    rw [namedText, name, Text.toList_eq, ByteArray.data_append, Array.toList_append]
    rfl
  have bad : ∀ rest, Text.Utf8.piece 255 rest = .bad 0 false := fun rest => rfl
  rw [Text.Utf8.decode, bytes, Text.Utf8.decodeOnto, bad]
  rfl

end Heap

namespace Machine

/-- A table whose name is no UTF-8 cannot be printed, though `tostring` spells it. -/
theorem tostring_not_shown :
    let h := (Session.fresh none).heap
    let v := Value.table (h.tables.size + 1)
    (showing h.withNamed v).Invokes (.host .print) [v] { showing h.withNamed v with focus := .done } ∧
      h.withNamed.rawGet h.withNamed.globals (.text "tostring") = .builtin (.base .tostring) ∧
      ∀ host, ∃ F bytes T,
        (step host)^[2] (showing h.withNamed v) = converting { showing h.withNamed v with focus := .done } F v ∧
        Spells host F { showing h.withNamed v with focus := .done } v bytes T ∧
        (∃ e h', ComesToFail host [] [] (showing h.withNamed v) e h') ∧
        ∀ vs h', ¬ ComesBack host [] [] (showing h.withNamed v) vs h' := by
  intro h v
  have plain : h.withNamed.rawGet h.withNamed.globals (.text "tostring") = .builtin (.base .tostring) := by
    have first : h.withNamed.globals = h.globals := rfl
    have before : h.globals < h.tables.size := by
      show 0 < h.tables.size
      decide +kernel
    rw [first, Heap.rawGet, Heap.withNamed, Heap.table_withMeta h _ before]
    exact Session.rawGet_base none ("tostring", .tostring) (by decide)
  refine ⟨showing_invokes _ _, plain, fun host => ?_⟩
  obtain ⟨F, awaits⟩ := exists_awaits host (showing_invokes h.withNamed v) (fun _ => Value.noConfusion) plain
    (show 0 + 2 < maxDepth by decide)
  have spells := spells_of_done host F (m := { showing h.withNamed v with focus := .done }) h.toText_withNamed
  obtain ⟨i, inside, running, stack, raised, heap⟩ := awaits.refused spells h.decode_namedText
  refine ⟨F, _, _, awaits.calls, spells, ⟨_, _, i, inside, running, stack, raised, heap⟩, ?_⟩
  rintro vs h' ⟨j, inside', back, -⟩
  obtain rfl := eq_of_within inside (not_within running stack) inside' (not_within back.1 back.2.1)
  cases raised.symm.trans back.2.2

end Machine

end Lua

end VaultConsole
