import VaultConsole.Proofs.Runner.Calls

/-!
# How an evaluation fails

The value with which a chunk fails is the last one that is raised in it and that nothing in it catches. Each
chunk that fails has raised such a value, and the helper raises what the handler makes of it
(`goesOnAs_of_raisesLast`), unless memory is short or errors nest too deeply.
-/

namespace VaultConsole.Lua

namespace Machine

variable {host : Host} {R : List Resumer} {B : List Frame} {m : Machine} {i j n : Nat} {v v' : Value}
  {vs : List Value}

/-- A value is raised by a step, while the machine has stayed above a stack, and it is the last one raised
there that nothing above the stack catches. -/
structure RaisesLast (host : Host) (R : List Resumer) (B : List Frame) (m : Machine) (i : Nat) (v : Value) :
    Prop where
  above : ∀ k, k ≤ i → Above R B ((step host)^[k] m)
  uncaught : Uncaught R B ((step host)^[i] m) v
  last : ∀ k v', i < k → (∀ j, j ≤ k → Above R B ((step host)^[j] m)) → ¬ Uncaught R B ((step host)^[k] m) v'

/-- There is one last value at most. -/
theorem RaisesLast.unique (h : RaisesLast host R B m i v) (h' : RaisesLast host R B m j v') :
    i = j ∧ v = v' := by
  obtain before | rfl | after := Nat.lt_trichotomy i j
  · exact absurd h'.uncaught (h.last j v' before h'.above)
  · have same := h.uncaught.2.1.symm.trans h'.uncaught.2.1
    exact ⟨rfl, Focus.raise.inj same⟩
  · exact absurd h.uncaught (h'.last i v after h.above)

/-- A machine that gives results to the stack above which it stays returns to it. -/
theorem exists_returns (above : ∀ k, k ≤ n → Above R B ((step host)^[k] m))
    (arrives : Arrives R B ((step host)^[n] m) vs) : ∃ ws m', Returns host R B m ws m' := by
  induction n generalizing m with
  | zero => exact ⟨vs, m, .here arrives⟩
  | succ n ih =>
    by_cases now : ∃ ws, Arrives R B m ws
    · obtain ⟨ws, now⟩ := now
      exact ⟨ws, m, .here now⟩
    · obtain ⟨ws, m', returns⟩ := ih (fun k upTo => above (k + 1) (by omega)) arrives
      exact ⟨ws, m', .later (above 0 (by omega)) (fun ws found => now ⟨ws, found⟩) returns⟩

/-- Above a boundary to which results are given in the end no error is raised that nothing catches. -/
theorem not_uncaught_of_arrives {g : Frame} (base : g.isBoundary)
    (above : ∀ k, k ≤ n → Above R (g :: B) ((step host)^[k] m))
    (arrives : Arrives R (g :: B) ((step host)^[n] m) vs) (upTo : i ≤ n) :
    ¬ Uncaught R (g :: B) ((step host)^[i] m) v := by
  rintro ⟨running, raised, pre, stack, uncaught⟩
  obtain ⟨more, rfl⟩ := Nat.exists_eq_add_of_le upTo
  rw [Nat.add_comm, Function.iterate_add_apply] at arrives
  obtain ⟨ws, m', returns⟩ := exists_returns (m := (step host)^[i] m) (fun k inside => by
    rw [← Function.iterate_add_apply]
    exact above (k + i) (by omega)) arrives
  exact Doomed.not_returns base (.fails running pre stack uncaught (.inl ⟨v, raised⟩)) returns

/-- What a machine fails with where an error is not handled: there is no memory for the helper, or errors nest
too deeply. -/
inductive Breaks (host : Host) (m : Machine) : Value → Prop where
  | short (short : ∃ j, Runner.IsShort ((step host)^[j] m).heap) : Breaks host m memoryError
  | deep (deep : ∃ j, ((step host)^[j] m).IsDeep) : Breaks host m (.text "error in error handling")

/-- What goes on in place of a raised value, which was raised so many steps later: what the handler makes of
it, unless memory is short or errors nest too deeply. -/
inductive GoesOnAs (host : Host) (m : Machine) (i : Nat) (v : Value) : Value → Prop where
  | broken {w : Value} (breaks : m.Breaks host w) : GoesOnAs host m i v w
  | folded {w : Value} (folds : ((step host)^[i] m).Folds host v w) : GoesOnAs host m i v w

end Machine

namespace Runner

open Machine

variable {host : Host} {heap : Heap} {c f h k i n N thread : Nat} {threads : Array ThreadState}
  {v w : Value}

/-- What goes on in place of an error that leaves a chunk comes from the last value that was raised. -/
theorem folds_of_escapes (helper : IsHelper heap c f h)
    (above : ∀ j, j ≤ n → Above [] (guarded f h k) ((step host)^[j] (entering heap f h k thread threads)))
    (out : ¬ Above [] (guarded f h k) ((step host)^[n + 1] (entering heap f h k thread threads)))
    (escapes : Escapes [] (guarded f h k) ((step host)^[n] (entering heap f h k thread threads)) w) :
    let m := entering heap f h k thread threads
    m.Breaks host w ∨
      ∃ i v, m.RaisesLast host [] (guarded f h k) i v ∧ ((step host)^[i] m).Folds host v w := by
  intro m
  have calls : ∀ e, m.focus ≠ .unwind e := fun e => by simp [m, entering]
  obtain ⟨rfl, j, -, deep⟩ | ⟨i, v, before, uncaught, quiet, handled⟩ :=
    exists_raise rfl rfl calls n above escapes
  · exact .inl (.deep ⟨j, deep⟩)
  · refine .inr ⟨i, v, ⟨fun j upTo => above j (by omega), uncaught, ?_⟩, ?_⟩
    · intro j v' later stays
      refine quiet j v' later (Nat.le_of_not_lt fun beyond => out (stays (n + 1) beyond))
    · have running : ((step host)^[i] m).resumers = m.resumers := uncaught.1
      -- The handler is still the one that the session was set up with.
      have held : ((step host)^[i] m).heap.closures.getD h default = handlerClosure := by
        rw [Array.getD_eq_getD_getElem?, (helper.grows (iterate_grows host i m)).handler]
        rfl
      cases handled with
      | unhandled => exact .other (by decide)
      | handled ws after returns first =>
        rw [first]
        rw [← running] at returns
        exact folds_of_handler _ held returns

/-- A chunk whose last value that nothing catches is raised: the helper raises what the handler makes of
it. -/
theorem goesOnAs_of_raisesLast (helper : IsHelper heap c f h)
    (ended : ((step host)^[N] (entering heap f h k thread threads)).hasEnded = true)
    (raises : (entering heap f h k thread threads).RaisesLast host [] (guarded f h k) i v) :
    let m := entering heap f h k thread threads
    ∃ w, m.GoesOnAs host i v w ∧ ((step host)^[N] m).focus = .failed w := by
  intro m
  obtain ⟨short, failed⟩ | ⟨n, above, out, ⟨vs, arrives, -⟩ | ⟨w, escapes, failed⟩⟩ :=
    ends_of_entering helper ended
  · exact ⟨_, .broken (.short short), failed⟩
  · have upTo : i ≤ n := Nat.le_of_not_lt fun beyond => out (raises.above (n + 1) beyond)
    exact absurd raises.uncaught (not_uncaught_of_arrives rfl above arrives upTo)
  · obtain breaks | ⟨j, v', raises', folds⟩ := folds_of_escapes helper above out escapes
    · exact ⟨w, .broken breaks, failed⟩
    · obtain ⟨rfl, rfl⟩ := raises.unique raises'
      exact ⟨w, .folded folds, failed⟩

/-- A chunk that fails has raised a last value that nothing catches. -/
theorem exists_raisesLast (helper : IsHelper heap c f h)
    (ended : ((step host)^[N] (entering heap f h k thread threads)).hasEnded = true)
    (failed : ((step host)^[N] (entering heap f h k thread threads)).focus = .failed w) :
    let m := entering heap f h k thread threads
    m.Breaks host w ∨ ∃ i v, m.RaisesLast host [] (guarded f h k) i v := by
  intro m
  obtain ⟨short, failed'⟩ | ⟨n, above, out, ⟨vs, -, returned⟩ | ⟨w', escapes, failed'⟩⟩ :=
    ends_of_entering helper ended
  · obtain rfl := Focus.failed.inj (failed.symm.trans failed')
    exact .inl (.short short)
  · cases failed.symm.trans returned
  · obtain rfl := Focus.failed.inj (failed.symm.trans failed')
    obtain breaks | ⟨i, v, raises, -⟩ := folds_of_escapes helper above out escapes
    · exact .inl breaks
    · exact .inr ⟨i, v, raises⟩

end Runner

end VaultConsole.Lua
