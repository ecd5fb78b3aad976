import VaultConsole.Proofs.Machine.Courses
import VaultConsole.Proofs.Results
import VaultConsole.Proofs.Runner.Calls
import VaultConsole.Proofs.Vault.Waiting

/-!
# Printing

What print does is told by its conversions: they may call anything, print among it, and each of them comes back, or
it fails, or it goes on for ever. `prints_of_invokes` says what comes of a call of print in each case.
-/

namespace VaultConsole

namespace Lua

/-! ## Conversions -/

/-- Whether an action calls values only with their errors caught, and captures nothing by itself. -/
def Action.Guarded {α : Type} (a : Action α) : Prop := ∀ h, (a.run h).Guarded h.printed

namespace Library

variable {α β : Type}

theorem guarded_pure (a : α) : (pure a : Action α).Guarded := fun h => .done a h

theorem guarded_bind {x : Action α} {f : α → Action β} (first : x.Guarded) (second : ∀ a, (f a).Guarded) :
    (x >>= f).Guarded := fun h => (first h).bind fun a h => second a h

theorem guarded_inspect (f : Heap → α) : (Action.inspect f).Guarded := fun h => .done (f h) h

theorem guarded_failHost (e : ScriptError) : (failHost e : Action α).Guarded := fun h => .fail _ (h.newFailure _).1

theorem guarded_pcall (f : Value) (args : List Value) :
    (Action.call (.builtin (.base .pcall)) (f :: args)).Guarded := fun h => .call f args h fun vs h => .done vs h

theorem guarded_raisedError (fuel : Nat) (e : Value) : (raisedError fuel e).Guarded := by
  induction fuel generalizing e with
  | zero => exact guarded_pure _
  | succ fuel ih =>
    refine guarded_bind (guarded_inspect _) fun told? => ?_
    split
    · exact guarded_pure _
    · refine guarded_bind (guarded_pcall _ _) fun vs => ?_
      split
      · exact ih _
      · exact ih _
      · exact guarded_pure _

theorem guarded_callProtected (f : Value) (args : List Value) : (callProtected f args).Guarded := by
  refine guarded_bind (guarded_pcall _ _) fun vs => ?_
  split
  · exact guarded_pure _
  · exact guarded_bind (guarded_raisedError _ _) fun e => guarded_pure _
  · exact guarded_pure _

theorem guarded_fieldProtected (fuel : Nat) (object key : Value) : (fieldProtected fuel object key).Guarded := by
  induction fuel generalizing object with
  | zero => exact guarded_pure _
  | succ fuel ih =>
    unfold fieldProtected
    extract_lets rest
    have goes : ∀ direct, (rest direct).Guarded := by
      intro direct
      simp only [rest]
      split
      · exact guarded_pure _
      · refine guarded_bind (guarded_inspect _) fun f => ?_
        split
        · split
          · exact guarded_pure _
          · exact guarded_bind (guarded_inspect _) fun type => guarded_pure _
        · split
          · exact guarded_bind (guarded_callProtected _ _) fun r => guarded_pure _
          · exact ih _
    split
    · exact guarded_bind (guarded_inspect _) goes
    · exact guarded_bind (guarded_pure _) goes

theorem guarded_globalValue (name : String) : (globalValue name).Guarded := by
  refine guarded_bind (guarded_inspect _) fun globals => guarded_bind (guarded_fieldProtected _ _ _) fun r => ?_
  split
  · exact guarded_pure _
  · exact guarded_failHost _

/-- A conversion calls with errors caught, and captures nothing by itself. -/
theorem guarded_shownText (v : Value) : (shownText v).Guarded := by
  unfold shownText
  split
  · exact guarded_pure _
  · refine guarded_bind (guarded_globalValue _) fun f => ?_
    split
    · exact guarded_failHost _
    · refine guarded_bind (guarded_callProtected _ _) fun r => ?_
      split
      · exact guarded_failHost _
      · split
        · exact guarded_pure _
        · exact guarded_failHost _

theorem guarded_shownTexts (vs : List Value) : (shownTexts vs).Guarded := by
  induction vs with
  | nil => exact guarded_pure _
  | cons v vs ih => exact guarded_bind (guarded_shownText v) fun s => guarded_bind ih fun ss => guarded_pure _

end Library

namespace Machine

variable {host : Host} {m m' : Machine} {args : List Value}

/-! ## Lines -/

/-- What is captured after some steps is what was captured before, and then the lines of these steps. -/
theorem iterate_lines (host : Host) (n : Nat) (m : Machine) :
    ((step host)^[n] m).heap.printed.lines = m.heap.printed.lines ++ m.linesPrinted host n := by
  rw [← run_eq_iterate]
  exact run_lines host n m

/-- Values are converted for printing one after the other, above a stack: each conversion gives a text. -/
inductive Converts (host : Host) (R : List Resumer) (S : List Frame) :
    List Value → Heap → List String → Heap → Prop where
  | nil (h : Heap) : Converts host R S [] h [] h
  | cons {v : Value} {vs : List Value} {s : String} {texts : List String} {h h' h'' : Heap}
      (gives : ((Library.shownText v).run h).Gives host R S s h') (later : Converts host R S vs h' texts h'') :
      Converts host R S (v :: vs) h (s :: texts) h''

theorem converts_of_gives {vs : List Value} {R : List Resumer} {S : List Frame} {h h' : Heap} {texts : List String}
    (gives : ((Library.shownTexts vs).run h).Gives host R S texts h') : Converts host R S vs h texts h' := by
  induction vs generalizing h texts with
  | nil =>
    obtain ⟨rfl, rfl⟩ := gives.eq_of_done
    exact .nil _
  | cons v vs ih =>
    obtain ⟨s, h₁, first, rest⟩ := gives.of_bind
    obtain ⟨ss, h₂, later, last⟩ := rest.of_bind
    obtain ⟨rfl, rfl⟩ := last.eq_of_done
    exact .cons first (ih later)

/-- Where the conversion of values fails, some of them are converted, and the conversion of the next one fails. -/
theorem exists_fails {vs : List Value} {R : List Resumer} {S : List Frame} {g e : Value} {depth : Nat} {h h' : Heap}
    (fails : ((Library.shownTexts vs).run h).Fails host R S g depth e h') :
    ∃ before v after texts h₁, vs = before ++ v :: after ∧ Converts host R S before h texts h₁ ∧
      ((Library.shownText v).run h₁).Fails host R S g depth e h' := by
  induction vs generalizing h with
  | nil => cases fails
  | cons v vs ih =>
    obtain first | ⟨s, h₁, gives, rest⟩ := fails.of_bind
    · exact ⟨[], v, vs, [], h, rfl, .nil h, first⟩
    · obtain later | ⟨ss, h₂, -, last⟩ := rest.of_bind
      · obtain ⟨before, w, after, texts, h₂, rfl, converts, later⟩ := ih later
        exact ⟨v :: before, w, after, s :: texts, h₂, rfl, .cons gives converts, later⟩
      · cases last

/-! ## Calls of print -/

/-- A call leaves the heap as it is until it is entered. -/
theorem Calls.heap {f : Value} (calls : m.Calls f args m') : m'.heap = m.heap := by
  have waits : ∀ (m : Machine) (line : Nat) (name : CallName) (want : Want),
      (m.waiting line name want).heap = m.heap := by
    intro m line name want
    cases want with
    | _ => rfl
  cases calls with
  | enter => rfl
  | _ => exact waits _ _ _ _

theorem Invokes.heap {b : Builtin} (invokes : m.Invokes b args m') : m'.heap = m.heap := by
  obtain ⟨f, args', calls, -⟩ := invokes
  exact calls.heap

/-- How a call of print is over. -/
inductive Prints (host : Host) (m m' : Machine) (args : List Value) (n : Nat) : Prop where
  /-- All arguments are converted. One line is written, after all lines that were written meanwhile, and print
  gives no values. -/
  | writes (texts : List String) (h : Heap)
      (converts : Converts host m'.resumers m'.stack args m.heap texts h)
      (gives : Arrives m'.resumers m'.stack ((step host)^[n + 1] m) [])
      (lines : ((step host)^[n + 1] m).heap.printed.lines =
        m.heap.printed.lines ++ m.linesPrinted host n ++ ["\t".intercalate texts])
  /-- The conversion of an argument fails. No line is written but those that were written meanwhile, and the error
  goes on. -/
  | fails (before after : List Value) (v : Value) (texts : List String) (h : Heap) (e : Value)
      (split : args = before ++ v :: after)
      (converts : Converts host m'.resumers m'.stack before m.heap texts h)
      (fails : ((Library.shownText v).run h).Fails host m'.resumers m'.stack (.builtin (.host .print)) m'.depth e
        ((step host)^[n + 1] m).heap)
      (stack : ((step host)^[n + 1] m).stack = m'.stack)
      (running : ((step host)^[n + 1] m).resumers = m'.resumers)
      (raised : ((step host)^[n + 1] m).focus = .raise e ∨ ((step host)^[n + 1] m).focus = .unwind e)
      (lines : ((step host)^[n + 1] m).heap.printed.lines = m.heap.printed.lines ++ m.linesPrinted host n)

/-- What a machine captures in its last step comes after what it has captured before. -/
theorem lines_of_last {h : Heap} {n : Nat} (captured : h.printed = ((step host)^[n] m).heap.printed) :
    h.printed.lines = m.heap.printed.lines ++ m.linesPrinted host n := by
  rw [captured, iterate_lines]

/-- **A call of print** goes on for ever with its conversions, or writes one line or none. -/
theorem prints_of_invokes (invokes : m.Invokes (.host .print) args m') :
    (∀ n, Within m'.resumers m'.stack ((step host)^[n + 1] m)) ∨
      ∃ n, (∀ k, k < n → Within m'.resumers m'.stack ((step host)^[k + 1] m)) ∧ Prints host m m' args n := by
  -- Print converts all its arguments first, with errors caught, and writes one line last.
  have same : m'.heap = m.heap := invokes.heap
  let writes (texts : List String) (h : Heap) : Act (List Value) := .done [] (h.print ("\t".intercalate texts))
  have begins : m.step host = m'.runNative host (.builtin (.host .print)) (Library.host .print args) :=
    step_of_invokes host invokes
  have parts : (Library.host .print args).run m'.heap = ((Library.shownTexts args).run m'.heap).bind writes := rfl
  have grows : (((Library.shownTexts args).run m'.heap).bind writes).Grows m'.heap :=
    (Library.host .print args).grows m'.heap
  have goes : m.step host = continueNative host (.builtin (.host .print)) { m' with heap := default }
      (((Library.shownTexts args).run m'.heap).bind writes) grows := begins
  obtain stays | ⟨n, inside, ends⟩ := course_of_guarded (Library.guarded_shownTexts args m'.heap) grows goes
    (by rw [same]) rfl rfl
  · exact .inl stays
  · refine .inr ⟨n, inside, ?_⟩
    cases ends with
    | @gives texts h _ last grows gives captured stack running after =>
      rw [same] at gives
      have finished : (step host)^[n + 1] m =
        { last with focus := .give [], heap := h.print ("\t".intercalate texts) } := after
      refine .writes texts h (converts_of_gives gives) ?_ ?_
      · rw [finished]
        exact ⟨running, stack, rfl⟩
      · rw [finished, ← lines_of_last captured]
        exact List.reverse_cons
    | fails e fails captured stack running raised =>
      rw [same] at fails
      obtain ⟨before, v, rest, texts, h, split, converts, fails⟩ := exists_fails fails
      exact .fails before rest v texts h e split converts fails stack running raised (lines_of_last captured)

end Machine

end Lua

end VaultConsole
