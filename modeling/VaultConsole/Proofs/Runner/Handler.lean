import VaultConsole.Proofs.Machine.Actions
import VaultConsole.Proofs.Runner.Source

/-!
# What the handler does

An error that nothing catches is folded by the handler where it is raised: an error table with a message
becomes the text of that message, and any other value stays what it is. `Folds` says so of a raised value
and of what goes on in its place, and `folds_of_handler` shows that a handler which returns has folded the
error.
-/

namespace VaultConsole.Lua

/-- What an action that begins with a heap gives above the stack of a machine. -/
def Machine.Does (host : Host) (m : Machine) {α : Type} (action : Action α) (h : Heap) (a : α)
    (h' : Heap) : Prop :=
  ∃ upper, (action.run h).Gives host m.resumers (upper ++ m.stack) a h'

/-- What goes on in place of a value that a machine raises: the value itself unless it is a table whose
message is not nil, and else the text of that message. The message is read with metamethods, once to see
whether there is one and once to convert it. -/
inductive Machine.Folds (host : Host) (m : Machine) : Value → Value → Prop where
  | other {v : Value} (other : v.type ≠ .table) : Folds host m v v
  | silent {r : Nat} {h : Heap}
      (reads : m.Does host (Metamethod.index (.table r) (.text "message")) m.heap .nil h) :
      Folds host m (.table r) (.table r)
  | message {r : Nat} {x y : Value} {h₁ h₂ h₃ : Heap} {text : ByteArray}
      (reads : m.Does host (Metamethod.index (.table r) (.text "message")) m.heap x h₁)
      (present : x ≠ .nil)
      (again : m.Does host (Metamethod.index (.table r) (.text "message")) h₁ y h₂)
      (converts : m.Does host (Metamethod.toText y) h₂ text h₃) : Folds host m (.table r) (.string text)

namespace Runner

open Machine

variable {host : Host} {R : List Resumer} {m m' : Machine} {S : List Frame} {vs : List Value}
  {v : Value} {heap : Heap} {depth room thread d e : Nat} {threads : Array ThreadState}

/-- The handler with the functions that it holds. -/
def handlerClosure : Closure :=
  ⟨handler, #[.value (.builtin (.base .type)), .value (.builtin (.base .tostring))]⟩

/-- The handler as it runs for an error. -/
def handling (v : Value) : Activation := ⟨chunk, handlerClosure.carried, #[v], #[], []⟩

/-- What waits for the end of the handler, and for its conditions. -/
def below (d e : Nat) (S : List Frame) : List Frame := .block [] keeping :: .handled d e :: S

def testing (d e : Nat) (S : List Frame) : List Frame := .branch telling [] :: below d e S

/-- A handler that finds no message gives the error itself. -/
theorem returns_kept (h : Returns host R (.handled d e :: S)
    ⟨.value (.bool false), handling v, testing d e S, heap, depth, room, thread, threads, R⟩ vs m') :
    vs = [v] := by
  have arrived := h.advance (n := 6) rfl
  exact (arrived.eq_of_arrives ⟨rfl, rfl, rfl⟩).1

/-- The handler begins with the type of the error. -/
theorem returns_typed {act : Activation} {r : Nat} (held : heap.closures.getD r default = handlerClosure)
    (h : Returns host R (.handled d e :: S)
      ⟨.enter (.closure r) [v], act, .handled d e :: S, heap, depth, room, thread, threads, R⟩ vs m') :
    ∃ room, Returns host R (.handled d e :: S)
      ⟨.value (.bool (Value.text v.type.name == .text "table")), handling v,
        .andThen hasMessage :: testing d e S, heap, depth, room, thread, threads, R⟩ vs m' := by
  have calm : ∀ f ∈ ([] : List Frame), f.catches = false := by simp
  have entered : Returns host R (.handled d e :: S)
      (enterClosure ⟨.done, act, .handled d e :: S, heap, depth, room, thread, threads, R⟩ r [v]) vs m' :=
    h.advance (n := 1) rfl
  -- The handler is carried out up to the comparison, and the library function for types on the way.
  have begun : Returns host R (.handled d e :: S)
      ⟨.exec handler.body, handling v, .handled d e :: S, heap, depth, room + 1 + 0 + 4, thread, threads,
        R⟩ vs m' :=
    entered.of_enterClosure rfl calm rfl rfl held
  have called : Returns host R (.handled d e :: S)
      ((step host)^[6] ⟨.exec handler.body, handling v, .handled d e :: S, heap, depth, room + 1 + 0 + 4,
        thread, threads, R⟩) vs m' := begun.advance rfl
  have typed : Returns host R (.handled d e :: S)
      ⟨.value (.text v.type.name), handling v,
        .binaryRight .eq (.call (.carried 0 "type".toUTF8) [errorCode] 5) (.const (.text "table")) 5 ::
          .andThen hasMessage :: testing d e S,
        heap, depth, room + 1 + 0 + 4, thread, threads, R⟩ vs m' :=
    called.step fun _ arrives => nomatch arrives.2.1
  have compared : Returns host R (.handled d e :: S)
      (binary ⟨.done, handling v, .andThen hasMessage :: testing d e S, heap, depth, room + 1 + 0 + 4,
        thread, threads, R⟩ .eq (.string v.type.name.toUTF8) (.string "table".toUTF8)
        (.call (.carried 0 "type".toUTF8) [errorCode] 5) (.const (.text "table")) 5) vs m' :=
    typed.advance (n := 1) rfl
  rw [binary_eq_string] at compared
  exact ⟨_, compared⟩

/-- The handler looks whether a table has a message. -/
theorem returns_read {r : Nat} (h : Returns host R (.handled d e :: S)
    ⟨.value (.bool true), handling (.table r), .andThen hasMessage :: testing d e S, heap, depth, room,
      thread, threads, R⟩ vs m') :
    ∃ upper x heap' thread threads,
      ((Metamethod.index (.table r) (.text "message")).run heap).Gives host R (upper ++ S) x heap' ∧
      Returns host R (.handled d e :: S)
        ⟨.value (.bool (!(x == .nil))), handling (.table r), testing d e S, heap', depth, room, thread,
          threads, R⟩ vs m' := by
  have calm : ∀ f ∈ [.binaryRight .ne (messageCode 5) (.const .nil) 5, .branch telling [],
      Frame.block [] keeping], f.catches = false := by
    simp [Frame.catches]
  -- Reading the message may call a function of the script, which returns here.
  have reads : Returns host R (.handled d e :: S)
      (index ⟨.done, handling (.table r),
        .binaryRight .ne (messageCode 5) (.const .nil) 5 :: testing d e S, heap, depth, room, thread,
        threads, R⟩ (.table r) (.text "message") errorCode 5) vs m' :=
    h.advance (n := 3) rfl
  obtain ⟨x, heap', thread, threads, gives, read⟩ := gives_of_index reads rfl calm rfl
  have compared : Returns host R (.handled d e :: S)
      (binary ⟨.done, handling (.table r), testing d e S, heap', depth, room, thread, threads, R⟩ .ne x .nil
        (messageCode 5) (.const .nil) 5) vs m' :=
    read.advance (n := 1) rfl
  rw [binary_ne_nil] at compared
  refine ⟨[.binaryRight .ne (messageCode 5) (.const .nil) 5, .branch telling [], .block [] keeping,
    .handled d e], x, heap', thread, threads, ?_, compared⟩
  exact gives

/-- A handler that has found a message gives its text. -/
theorem returns_told {r : Nat} (h : Returns host R (.handled d e :: S)
    ⟨.value (.bool true), handling (.table r), testing d e S, heap, depth, room, thread, threads, R⟩
    vs m') :
    ∃ upper upper' y heap' text heap'',
      ((Metamethod.index (.table r) (.text "message")).run heap).Gives host R (upper ++ S) y heap' ∧
      ((Metamethod.toText y).run heap').Gives host R (upper' ++ S) text heap'' ∧ vs = [.string text] := by
  have calm : ∀ f ∈ [.more [] [], .call (.builtin (.base .tostring)) (.code (.carried 1 "tostring".toUTF8))
      6 .tail, Frame.block [] keeping], f.catches = false := by
    simp [Frame.catches]
  have reads : Returns host R (.handled d e :: S)
      (index ⟨.done, handling (.table r), .more [] [] :: .call (.builtin (.base .tostring))
          (.code (.carried 1 "tostring".toUTF8)) 6 .tail :: below d e S,
        heap, depth, room, thread, threads, R⟩ (.table r) (.text "message") errorCode 6) vs m' :=
    h.advance (n := 4) rfl
  -- The message is read a second time, and need not be what it was before.
  obtain ⟨y, heap', thread, threads, gives, read⟩ := gives_of_index reads rfl calm rfl
  have calm' : ∀ f ∈ [.caller (handling (.table r)) 6 (.code (.carried 1 "tostring".toUTF8)) .all room,
      .return, Frame.block [] keeping], f.catches = false := by
    simp [Frame.catches]
  have converts : Returns host R (.handled d e :: S)
      (runNative host ⟨.done, default, .caller (handling (.table r)) 6
          (.code (.carried 1 "tostring".toUTF8)) .all room :: .return :: below d e S,
        heap', depth, room, thread, threads, R⟩ (.builtin (.base .tostring))
        (Library.run depth (.base .tostring) [y])) vs m' :=
    read.advance (n := 3) rfl
  obtain ⟨ws, heap'', act, thread, threads, told, given⟩ :=
    gives_of_runNative converts rfl calm' rfl rfl
  have parts : (((Metamethod.toText y).run heap').bind fun text h => .done [Value.string text] h).Gives
      host R _ ws heap'' := told
  obtain ⟨text, h', gives', ends⟩ := parts.of_bind
  obtain ⟨rfl, rfl⟩ := ends.eq_of_done
  have back := given.step fun _ arrives => nomatch arrives.2.1
  have ended := (back.advance (n := 2) rfl).eq_of_arrives ⟨rfl, rfl, rfl⟩
  exact ⟨[_, _, _, .handled d e], [_, _, _, .handled d e], y, heap', text, _, gives, gives', ended.1⟩

/-- Only tables have the type of tables. -/
theorem type_eq_table (v : Value) :
    (Value.text v.type.name == .text "table") = decide (v.type = .table) := by
  cases v.type with
  | table => decide +kernel
  | _ => decide +kernel

/-- A handler that returns has folded the error for which it was called. -/
theorem folds_of_handler (m : Machine) {v : Value} {r : Nat} {after : Machine}
    (held : m.heap.closures.getD r default = handlerClosure)
    (returns : Returns host m.resumers (.handled m.depth m.room :: m.stack)
      (nest { m with focus := .done, stack := .handled m.depth m.room :: m.stack } ByteArray.empty
        fun m => { m with focus := .enter (.closure r) [v] }) vs after) :
    m.Folds host v (vs.headD .nil) := by
  have entered := returns.of_nest (B := m.stack) rfl rfl (List.nil_append _).symm (by simp)
  obtain ⟨room, typed⟩ := returns_typed held entered
  rw [type_eq_table] at typed
  -- Only a table is asked for a message, and only a message that is there is told.
  by_cases isTable : v.type = .table
  · obtain ⟨r, rfl⟩ : ∃ r, v = .table r := by
      cases v with
      | table r => exact ⟨r, rfl⟩
      | _ => cases isTable
    obtain ⟨upper, x, h₁, thread, threads, gives, read⟩ := returns_read typed
    cases absent : (x == Value.nil) with
    | true =>
      rw [absent] at read
      rw [returns_kept read]
      rw [eq_of_beq absent] at gives
      exact .silent ⟨upper, gives⟩
    | false =>
      rw [absent] at read
      obtain ⟨upper', upper'', y, h₂, text, h₃, again, converts, rfl⟩ := returns_told read
      exact .message ⟨upper, gives⟩ (by simpa using absent) ⟨upper', again⟩ ⟨upper'', converts⟩
  · rw [decide_eq_false isTable] at typed
    rw [returns_kept (typed.advance (n := 1) rfl)]
    exact .other isTable

end Runner

end VaultConsole.Lua
