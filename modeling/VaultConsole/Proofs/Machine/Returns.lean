import VaultConsole.Proofs.Machine.Levels

/-!
# Calls that return

A call goes on above the stack of its caller until it gives results to that stack, or an error passes it.
`Returns` says of a machine that it gives results to a stack, and `Returns.of_above` divides such a run at
the boundary of a call on the way. An error that nothing catches above a stack never lets the machine give
results to it (`Doomed.not_returns`), so what returns has raised no such error.
-/

namespace VaultConsole.Lua

/-- Whether errors are caught at a frame. -/
def Frame.catches : Frame → Bool
  | .protect .. => true
  | _ => false

theorem Frame.catches_of_isPassed {f : Frame} (h : f.isPassed) : f.catches = false := by
  cases f with
  | protect => cases h
  | _ => rfl

theorem Frame.isBoundary_of_not_isPlain {f : Frame} (h : f.isPlain = false) : f.isBoundary := by
  cases f with
  | handled => rfl
  | closed => rfl
  | _ => cases h

namespace Machine

variable {host : Host} {R : List Resumer} {m m' : Machine} {S B : List Frame}

/-- Frames above a given one end above it or go beyond it. -/
theorem append_eq_above {given rest pre : List Frame} {f : Frame} (h : given ++ rest = pre ++ f :: B) :
    (∃ pre', pre = given ++ pre' ∧ rest = pre' ++ f :: B) ∨
      ∃ upper, given = pre ++ f :: upper ∧ B = upper ++ rest := by
  obtain ⟨upper, left, right⟩ | ⟨upper, left, right⟩ := List.append_eq_append_iff.1 h
  · exact .inl ⟨upper, left, right⟩
  · cases upper with
    | nil => exact .inl ⟨[], by simpa using left.symm, right.symm⟩
    | cons g upper =>
      obtain ⟨same, rest'⟩ := List.cons.inj right
      exact .inr ⟨upper, by rw [left, same], rest'⟩

/-- Of two frames of a stack, one is above the other, or they are the same. -/
theorem frame_cases {passed rest pre : List Frame} {g f : Frame} (h : passed ++ g :: rest = pre ++ f :: B) :
    (∃ between, pre = passed ++ g :: between ∧ rest = between ++ f :: B) ∨
    (passed = pre ∧ g = f ∧ rest = B) ∨
    ∃ between, passed = pre ++ f :: between ∧ B = between ++ g :: rest := by
  obtain ⟨pre', left, right⟩ | below := append_eq_above h
  · cases pre' with
    | nil =>
      obtain ⟨same, left'⟩ := List.cons.inj right
      exact .inr (.inl ⟨by simpa using left.symm, same, left'⟩)
    | cons x between =>
      obtain ⟨rfl, right'⟩ := List.cons.inj right
      exact .inl ⟨between, left, right'⟩
  · exact .inr (.inr below)

/-- The stack of a coroutine that is above another stack. -/
def Above (R : List Resumer) (B : List Frame) (m : Machine) : Prop := ∃ pre, StackAt R m (pre ++ B)

theorem not_above_of_length (at' : StackAt R m S) (short : S.length < B.length) : ¬ Above R B m := by
  rintro ⟨pre, above⟩
  have same := congrArg List.length (at'.unique above)
  rw [List.length_append] at same
  omega

/-- A coroutine that was left is not above any stack. -/
theorem Leaves.not_above (h : Leaves m m') (running : m.resumers = R) : ¬ Above R B m' := by
  rintro ⟨pre, above⟩
  obtain ⟨r, resumers, -⟩ := h.resumer
  have lengths := congrArg List.length (running.symm.trans resumers)
  rw [List.length_cons] at lengths
  have := above.length_le
  omega

/-! ## Staying above a boundary -/

/-- An error passes all frames above a stack. -/
def Escapes (R : List Resumer) (B : List Frame) (m : Machine) (e : Value) : Prop :=
  m.resumers = R ∧ m.focus = .unwind e ∧ ∃ pre, m.stack = pre ++ B ∧ ∀ f ∈ pre, f.catches = false

/-- Results are given to a stack. -/
def Arrives (R : List Resumer) (B : List Frame) (m : Machine) (vs : List Value) : Prop :=
  m.resumers = R ∧ m.stack = B ∧ m.focus = .give vs

/-- A machine that enters a function gives no results. -/
theorem not_arrives_of_enter {f : Value} {args : List Value} (enters : m.focus = .enter f args) (vs : List Value) :
    ¬ Arrives R B m vs := by
  rintro ⟨-, -, gives⟩
  rw [enters] at gives
  cases gives

/-- Results are given to the boundary, or to a frame above it. -/
theorem above_or_arrives {f top : Frame} {pre rest : List Frame} {vs : List Value} (at' : StackAt R m (pre ++ f :: B))
    (running : m.resumers = R) (given : m.focus = .give vs) (before : pre ++ f :: B = top :: rest)
    (pushed : List Frame) (later : StackAt R m' (pushed ++ rest)) :
    Above R (f :: B) m' ∨ Arrives R (f :: B) m vs := by
  cases pre with
  | nil => exact .inr ⟨running, at'.stack_eq running, given⟩
  | cons p pre =>
    have split : pre ++ f :: B = rest := (List.cons.inj before).2
    exact .inl ⟨pushed ++ pre, by rw [List.append_assoc, split]; exact later⟩

/-- A machine above a boundary stays above it, unless it gives results to it or an error passes all
frames down to it, or its coroutine is left. -/
theorem Above.step (host : Host) {f : Frame} (boundary : f.isBoundary) (above : Above R (f :: B) m) :
    Above R (f :: B) (m.step host) ∨ (∃ vs, Arrives R (f :: B) m vs) ∨
      (∃ e, Escapes R (f :: B) m e) ∨ (m.resumers = R ∧ Leaves m (m.step host)) := by
  obtain ⟨pre, at'⟩ := above
  obtain ⟨S', later, change⟩ | left := step_level host at'
  · cases change with
    | waits waiting pushed stack => exact .inl ⟨pushed ++ pre, by rw [List.append_assoc, ← stack]; exact later⟩
    | proceeds running inner given rest pushed before bounded after =>
      obtain ⟨pre', -, split⟩ | ⟨upper, split, -⟩ := append_eq_above before.symm
      · exact .inl ⟨pushed ++ pre', by rw [List.append_assoc, ← split, ← after]; exact later⟩
      · have inner := bounded f (by rw [split]; simp)
        rw [boundary] at inner
        cases inner
    | gives running vs g rest pushed given before ordinary after =>
      rw [after] at later
      exact (above_or_arrives at' running given before pushed later).imp_right fun arrives => .inl ⟨vs, arrives⟩
    | handled running vs depth room given before =>
      exact (above_or_arrives at' running given before [] later).imp_right fun arrives => .inl ⟨vs, arrives⟩
    | closed running vs act line e depth room given before =>
      exact (above_or_arrives at' running given before [] later).imp_right fun arrives => .inl ⟨vs, arrives⟩
    | unhandled running e raised after => exact .inl ⟨pre, by rw [← after]; exact later⟩
    | handles running e h raised found after => exact .inl ⟨_ :: pre, by rw [List.cons_append, ← after]; exact later⟩
    | catches running e passed h depth room goes before passes =>
      -- The error is caught above the boundary, or it has passed all frames there.
      have escapes : ∀ upper, passed = pre ++ upper → Escapes R (f :: B) m e := by
        intro upper split
        refine ⟨running, goes, pre, at'.stack_eq running, fun g member => ?_⟩
        exact Frame.catches_of_isPassed (passes g (by rw [split]; exact List.mem_append_left _ member))
      obtain ⟨pre', -, split⟩ | ⟨same, -, -⟩ | ⟨upper, split, -⟩ := frame_cases before.symm
      · exact .inl ⟨pre', by rw [← split]; exact later⟩
      · exact .inr (.inr (.inl ⟨e, escapes [] (by rw [same, List.append_nil])⟩))
      · exact .inr (.inr (.inl ⟨e, escapes _ split⟩))
    | closes running e passed rest v line goes before passes after =>
      obtain ⟨pre', -, split⟩ | ⟨-, same, -⟩ | ⟨upper, split, -⟩ := frame_cases before.symm
      · exact .inl ⟨_ :: pre', by rw [List.cons_append, ← split, ← after]; exact later⟩
      · rw [← same] at boundary
        cases boundary
      · refine .inr (.inr (.inl ⟨e, running, goes, pre, at'.stack_eq running, fun g member => ?_⟩))
        exact Frame.catches_of_isPassed (passes g (by rw [split]; exact List.mem_append_left _ member))
    | ended running after => exact .inl ⟨pre, by rw [← after]; exact later⟩
  · exact .inr (.inr (.inr left))

/-! ## Errors that nothing catches -/

/-- An error was raised above a stack, with nothing between that catches it: it is on its way, or a frame
that it has pushed waits. -/
inductive Doomed (R : List Resumer) (B : List Frame) (m : Machine) : Prop where
  | fails (running : m.resumers = R) (pre : List Frame) (stack : m.stack = pre ++ B)
      (uncaught : ∀ f ∈ pre, f.catches = false)
      (focus : (∃ e, m.focus = .raise e) ∨ ∃ e, m.focus = .unwind e)
  | waits (upper pre : List Frame) (f : Frame) (stack : StackAt R m (upper ++ f :: (pre ++ B)))
      (special : f.isPlain = false) (uncaught : ∀ g ∈ pre, g.catches = false)

/-- Where errors are caught below frames that catch none, less is left than was below these. -/
theorem length_lt_of_catch {pre given S' : List Frame} {last : Frame}
    (uncaught : ∀ f ∈ pre, f.catches = false) (catching : last.catches = true)
    (h : pre ++ B = given ++ last :: S') : S'.length < B.length := by
  obtain ⟨pre', -, split⟩ | ⟨upper, split, -⟩ := append_eq_above h
  · rw [split, List.length_append, List.length_cons]
    omega
  · have top := uncaught last (by rw [split]; simp)
    rw [catching] at top
    cases top

/-- A variable that is closed stands above a boundary, or less is left than was there. -/
theorem closing_above_or {pre passed rest : List Frame} {f : Frame} {v : Value} {line : Nat}
    (boundary : f.isBoundary) (h : pre ++ f :: B = passed ++ .closing v line :: rest) :
    (∃ pre', pre = passed ++ .closing v line :: pre' ∧ rest = pre' ++ f :: B) ∨
      rest.length + 1 < (f :: B).length := by
  obtain above | ⟨-, same, -⟩ | ⟨between, -, below⟩ := frame_cases h.symm
  · exact .inl above
  · rw [← same] at boundary
    cases boundary
  · have lengths := congrArg List.length below
    simp only [List.length_append, List.length_cons] at lengths
    exact .inr (by rw [List.length_cons]; omega)

/-- Where a variable is closed on the way of an error that nothing catches above a boundary, the error waits there, or
less is left than was above the boundary. -/
theorem doomed_of_closing {f : Frame} (boundary : f.isBoundary) {pre passed rest : List Frame} {v e : Value}
    {line depth room : Nat} {act : Activation} (uncaught : ∀ g ∈ pre, g.catches = false)
    (before : pre ++ f :: B = passed ++ .closing v line :: rest)
    (later : StackAt R m (.closed act line (.unwind e) depth room :: rest)) :
    Doomed R (f :: B) m ∨ ¬ Above R (f :: B) m := by
  obtain ⟨pre', split, rfl⟩ | short := closing_above_or boundary before
  · refine .inl (.waits [] pre' _ later rfl fun g member => uncaught g ?_)
    rw [split]
    exact List.mem_append_right _ (List.mem_cons_of_mem _ member)
  · exact .inr (not_above_of_length later (by rw [List.length_cons]; exact short))

/-- Where the frame at which an error waits is given results, the error goes on; and it waits on where another frame
above is. -/
theorem doomed_of_given {f g top : Frame} {upper pre rest : List Frame} {e : Value} (special : g.isPlain = false)
    (uncaught : ∀ h ∈ pre, h.catches = false) (before : upper ++ g :: (pre ++ f :: B) = top :: rest)
    (later : StackAt R m rest) (stays : m.resumers = R) (focus : m.focus = .unwind e) : Doomed R (f :: B) m := by
  cases upper with
  | nil =>
    have split : pre ++ f :: B = rest := (List.cons.inj before).2
    exact .fails stays pre (by rw [split]; exact later.stack_eq stays) uncaught (.inr ⟨e, focus⟩)
  | cons o upper =>
    have split : upper ++ g :: (pre ++ f :: B) = rest := (List.cons.inj before).2
    exact .waits upper pre g (by rw [split]; exact later) special uncaught

/-- An error that is on its way above a boundary passes it unless a variable is closed first. -/
theorem doomed_step_of_fails {f : Frame} (boundary : f.isBoundary) {pre : List Frame}
    (running : m.resumers = R) (stack : m.stack = pre ++ f :: B)
    (uncaught : ∀ g ∈ pre, g.catches = false)
    (focus : (∃ e, m.focus = .raise e) ∨ ∃ e, m.focus = .unwind e) :
    Doomed R (f :: B) (m.step host) ∨ ¬ Above R (f :: B) (m.step host) ∨ (m.step host).hasEnded := by
  -- A machine with an error neither goes on inside its function nor gives results.
  have outside : m.focus.isInner = false := by
    obtain ⟨e, focus⟩ | ⟨e, focus⟩ := focus
    · rw [focus]
      rfl
    · rw [focus]
      rfl
  have nothing : ∀ vs, m.focus ≠ .give vs := by
    intro vs given
    obtain ⟨e, focus⟩ | ⟨e, focus⟩ := focus
    · cases focus.symm.trans given
    · cases focus.symm.trans given
  obtain ⟨S', later, change⟩ | left := step_level host (StackAt.running running stack)
  · cases change with
    | waits waiting => exact absurd running waiting
    | proceeds running inner => exact absurd inner (Bool.not_eq_true _ ▸ outside)
    | gives running vs g rest pushed given => exact absurd given (nothing vs)
    | handled running vs depth room given => exact absurd given (nothing vs)
    | closed running vs act line e depth room given => exact absurd given (nothing vs)
    | unhandled running e raised after stays goes =>
      exact .inl (.fails stays pre ((later.stack_eq stays).trans after) uncaught (.inr ⟨e, goes⟩))
    | handles running e h raised found after =>
      rw [after] at later
      exact .inl (.waits [] pre _ later rfl uncaught)
    | catches running e passed h depth room goes before =>
      exact .inr (.inl (not_above_of_length later (length_lt_of_catch uncaught rfl before)))
    | closes running e passed rest v line goes before passes after =>
      rw [after] at later
      exact (doomed_of_closing boundary uncaught before later).imp_right .inl
    | ended running after ended => exact .inr (.inr ended)
  · exact .inr (.inl (left.2.not_above left.1))

/-- A frame at which an error waits above a boundary waits on, until it gets results and the error goes on. -/
theorem doomed_step_of_waits {f g : Frame} (boundary : f.isBoundary) {upper pre : List Frame}
    (stack : StackAt R m (upper ++ g :: (pre ++ f :: B))) (special : g.isPlain = false)
    (uncaught : ∀ h ∈ pre, h.catches = false) :
    Doomed R (f :: B) (m.step host) ∨ ¬ Above R (f :: B) (m.step host) ∨ (m.step host).hasEnded := by
  have waits : ∀ upper', StackAt R (m.step host) (upper' ++ g :: (pre ++ f :: B)) →
      Doomed R (f :: B) (m.step host) := fun upper' later => .waits upper' pre g later special uncaught
  obtain ⟨S', later, change⟩ | left := step_level host stack
  · cases change with
    | waits elsewhere pushed after =>
      exact .inl (waits (pushed ++ upper) (by rw [List.append_assoc, ← after]; exact later))
    | proceeds running inner given rest pushed before bounded after =>
      obtain ⟨upper', -, split⟩ | ⟨beyond, split, -⟩ := append_eq_above before.symm
      · exact .inl (waits (pushed ++ upper') (by rw [List.append_assoc, ← split, ← after]; exact later))
      · -- The frame is a boundary, which the running function does not give up.
        have inner := bounded g (by rw [split]; simp)
        rw [Frame.isBoundary_of_not_isPlain special] at inner
        cases inner
    | gives running vs top rest pushed given before ordinary after =>
      cases upper with
      | nil =>
        rw [← (List.cons.inj before).1, special] at ordinary
        cases ordinary
      | cons o upper =>
        have split : upper ++ g :: (pre ++ f :: B) = rest := (List.cons.inj before).2
        exact .inl (waits (pushed ++ upper) (by rw [List.append_assoc, split, ← after]; exact later))
    | handled running vs depth room given before stays focus =>
      exact .inl (doomed_of_given special uncaught before later stays focus)
    | closed running vs act line e depth room given before stays focus =>
      exact .inl (doomed_of_given special uncaught before later stays focus)
    | unhandled running e raised after => exact .inl (waits upper (by rw [← after]; exact later))
    | handles running e h raised found after =>
      exact .inl (waits (_ :: upper) (by rw [List.cons_append, ← after]; exact later))
    | catches running e passed h depth room goes before =>
      obtain ⟨upper', -, split⟩ | ⟨-, same, -⟩ | ⟨between, -, below⟩ := frame_cases before.symm
      · exact .inl (waits upper' (by rw [← split]; exact later))
      · rw [← same] at special
        cases special
      · exact .inr (.inl (not_above_of_length later (length_lt_of_catch uncaught rfl below)))
    | closes running e passed rest v line goes before passes after =>
      rw [after] at later
      obtain ⟨upper', -, split⟩ | ⟨-, same, -⟩ | ⟨between, -, below⟩ := frame_cases before.symm
      · exact .inl (waits (_ :: upper') (by rw [List.cons_append, ← split]; exact later))
      · rw [← same] at special
        cases special
      · exact (doomed_of_closing boundary uncaught below later).imp_right .inl
    | ended running after ended => exact .inr (.inr ended)
  · exact .inr (.inl (left.2.not_above left.1))

/-- An error that nothing catches above a boundary goes on to pass it. -/
theorem Doomed.step (host : Host) {f : Frame} (boundary : f.isBoundary) (h : Doomed R (f :: B) m) :
    Doomed R (f :: B) (m.step host) ∨ ¬ Above R (f :: B) (m.step host) ∨ (m.step host).hasEnded := by
  cases h with
  | fails running pre stack uncaught focus =>
    exact doomed_step_of_fails boundary running stack uncaught focus
  | waits upper pre g stack special uncaught => exact doomed_step_of_waits boundary stack special uncaught

/-! ## Runs that return -/

/-- A machine gives results to a stack for the first time, having been above it all the while. -/
inductive Returns (host : Host) (R : List Resumer) (B : List Frame) : Machine → List Value → Machine → Prop where
  | here {m : Machine} {vs : List Value} (arrives : Arrives R B m vs) : Returns host R B m vs m
  | later {m m' : Machine} {vs : List Value} (above : Above R B m) (busy : ∀ ws, ¬ Arrives R B m ws)
      (next : Returns host R B (m.step host) vs m') : Returns host R B m vs m'

namespace Returns

variable {vs : List Value}

theorem above (h : Returns host R B m vs m') : Above R B m := by
  cases h with
  | here arrives => exact ⟨[], .running arrives.1 arrives.2.1⟩
  | later above => exact above

theorem arrives (h : Returns host R B m vs m') : Arrives R B m' vs := by
  induction h with
  | here arrives => exact arrives
  | later above busy next ih => exact ih

/-- A machine that does not give results to the stack goes on. -/
theorem step (h : Returns host R B m vs m') (busy : ∀ ws, ¬ Arrives R B m ws) :
    Returns host R B (m.step host) vs m' := by
  cases h with
  | here arrives => exact absurd arrives (busy _)
  | later above busy next => exact next

/-- A machine that gives results to the stack has returned. -/
theorem eq_of_arrives {ws : List Value} (h : Returns host R B m vs m') (arrives : Arrives R B m ws) :
    vs = ws ∧ m' = m := by
  cases h with
  | here same =>
    have focus := same.2.2.symm.trans arrives.2.2
    cases focus
    exact ⟨rfl, rfl⟩
  | later above busy => exact absurd arrives (busy _)

end Returns

/-- What does nothing any more does not return. -/
theorem not_returns_of_hasStopped {vs : List Value} (stopped : m.hasStopped = true) :
    ¬ Returns host R B m vs m' := by
  intro h
  induction h with
  | here arrives =>
    rw [hasStopped, arrives.2.2] at stopped
    cases stopped
  | later above busy next ih => exact ih (by rw [step_stopped host stopped]; exact stopped)

theorem not_returns_of_hasEnded {vs : List Value} (ended : m.hasEnded = true) :
    ¬ Returns host R B m vs m' :=
  not_returns_of_hasStopped (hasStopped_of_hasEnded ended)

/-- What returns has raised no error that nothing catches on the way. -/
theorem Doomed.not_returns {f : Frame} {vs : List Value} (boundary : f.isBoundary)
    (doomed : Doomed R (f :: B) m) : ¬ Returns host R (f :: B) m vs m' := by
  intro h
  induction h with
  | here arrives =>
    cases doomed with
    | fails running pre stack uncaught focus =>
      rw [arrives.2.2] at focus
      obtain ⟨e, focus⟩ | ⟨e, focus⟩ := focus
      · cases focus
      · cases focus
    | waits upper pre g stack =>
      have lengths := congrArg List.length ((stack.stack_eq arrives.1).symm.trans arrives.2.1)
      simp only [List.length_append, List.length_cons] at lengths
      omega
  | later above busy next ih =>
    obtain doomed | out | ended := doomed.step host boundary
    · exact ih doomed
    · exact out next.above
    · exact not_returns_of_hasEnded ended next

/-- A run that gives results to a stack passes the boundaries above it one after the other: where errors
are not caught between, it gives results to each of them. -/
theorem Returns.of_above {f g : Frame} {pre : List Frame} {vs : List Value}
    (h : Returns host R (g :: B) m vs m') (base : g.isBoundary) (boundary : f.isBoundary)
    (above : Above R (f :: (pre ++ g :: B)) m) (uncaught : ∀ x ∈ f :: pre, x.catches = false) :
    ∃ ws m₁, Returns host R (f :: (pre ++ g :: B)) m ws m₁ ∧ Returns host R (g :: B) m₁ vs m' := by
  induction h with
  | here arrives =>
    obtain ⟨upper, at'⟩ := above
    have lengths := congrArg List.length ((at'.stack_eq arrives.1).symm.trans arrives.2.1)
    simp only [List.length_append, List.length_cons] at lengths
    omega
  | @later m m' vs above' busy next ih =>
    by_cases arrives : ∃ ws, Arrives R (f :: (pre ++ g :: B)) m ws
    · obtain ⟨ws, arrives⟩ := arrives
      exact ⟨ws, m, .here arrives, .later above' busy next⟩
    · obtain stays | arrives' | ⟨e, running, focus, upper, stack, uncaught'⟩ | left :=
        Above.step host boundary above
      · obtain ⟨ws, m₁, returns, rest⟩ := ih stays
        exact ⟨ws, m₁, .later above (fun ws found => arrives ⟨ws, found⟩) returns, rest⟩
      · exact absurd arrives' arrives
      · -- The error that passes the boundary is not caught on the way to the stack below either.
        refine absurd (Returns.later above' busy next) (Doomed.not_returns base ?_)
        refine .fails running (upper ++ f :: pre) (by rw [stack]; simp) ?_ (.inr ⟨e, focus⟩)
        intro x member
        obtain member | member := List.mem_append.1 member
        · exact uncaught' x member
        · exact uncaught x member
      · exact absurd next.above (left.2.not_above left.1)

end Machine

end VaultConsole.Lua
