import VaultConsole.Lua.Session

/-!
# Messages of failed executions

The message of a text is what stands before its first traceback mark, without blank characters at the end
(`IsCut`). An error of the host is told as it is, in however many layers it is wrapped (`IsToldAs`). `Tells`
says of a value that a script raises under which message it is told.
-/

namespace VaultConsole

namespace ScriptError

/-- What stands before the first occurrence of a mark, or all of a text without the mark. -/
structure IsBefore (mark text kept : List Char) : Prop where
  rest : ∃ rest, text = kept ++ rest ∧ (rest = [] ∨ mark <+: rest)
  first : ∀ p q, text = p ++ (mark ++ q) → kept.length ≤ p.length

/-- A text up to its first traceback mark, without the blank characters at the end of that. -/
def IsCut (text message : List Char) : Prop :=
  ∃ kept blanks, IsBefore tracebackMark text kept ∧ kept = message ++ blanks ∧
    (∀ c ∈ blanks, Text.isBlank c = true) ∧ ∀ c, message.getLast? = some c → Text.isBlank c = false

theorem before_isBefore (mark seen text : List Char) :
    ∃ kept, before mark seen text = seen.reverse ++ kept ∧ IsBefore mark text kept := by
  induction text generalizing seen with
  | nil => exact ⟨[], (List.append_nil _).symm, ⟨[], rfl, .inl rfl⟩, fun p q _ => Nat.zero_le _⟩
  | cons c cs ih =>
    unfold before
    by_cases here : mark.isPrefixOf (c :: cs) = true
    · rw [if_pos here]
      exact ⟨[], (List.append_nil _).symm, ⟨c :: cs, rfl, .inr (List.isPrefixOf_iff_prefix.1 here)⟩,
        fun p q _ => Nat.zero_le _⟩
    · rw [if_neg here]
      obtain ⟨kept, same, ⟨rest, split, ends⟩, first⟩ := ih (c :: seen)
      refine ⟨c :: kept, by rw [same]; simp, ⟨rest, by rw [split]; rfl, ends⟩, ?_⟩
      intro p q found
      cases p with
      | nil => exact absurd (List.isPrefixOf_iff_prefix.2 ⟨q, found.symm⟩) here
      | cons d p =>
        have later := first p q (List.cons.inj found).2
        rw [List.length_cons, List.length_cons]
        omega

/-- What is left of a text without its traceback is a cut of it. -/
theorem stripTraceback_isCut (text : String) : IsCut text.toList (stripTraceback text).toList := by
  obtain ⟨kept, same, isBefore⟩ := before_isBefore tracebackMark [] text.toList
  obtain ⟨blanks, split, blank⟩ := Text.dropBlankEnd_split kept
  have stripped : (stripTraceback text).toList = Text.dropBlankEnd kept := by
    rw [stripTraceback, String.toList_ofList, same]
    rfl
  rw [stripped]
  exact ⟨kept, blanks, isBefore, split, blank, fun c => Text.getLast_dropBlankEnd⟩

/-- A mark that begins in a text before a traceback ends in that text: it begins with a line feed, and has
no other one. -/
theorem tracebackMark_within {c : Char} {cs rest : List Char}
    (h : tracebackMark <+: (c :: cs) ++ (tracebackMark ++ rest)) : tracebackMark <+: c :: cs := by
  obtain fits | short := Nat.lt_or_ge (c :: cs).length tracebackMark.length
  · obtain ⟨u, split⟩ := List.prefix_of_prefix_length_le (List.prefix_append _ _) h (Nat.le_of_lt fits)
    have begins : u <+: tracebackMark ++ rest := by
      rw [← split] at h ⊢
      exact (List.prefix_append_right_inj _).1 h
    cases u with
    | nil =>
      rw [List.append_nil] at split
      rw [split] at fits
      exact absurd fits (Nat.lt_irrefl _)
    | cons d u =>
      have feed : d = '\n' := by
        obtain ⟨more, same⟩ := begins
        exact (List.cons.inj same).1
      have inside : d ∈ tracebackMark.tail := by
        rw [← split]
        simp
      rw [feed] at inside
      exact absurd inside (by decide)
  · exact List.prefix_of_prefix_length_le h (List.prefix_append _ _) short

/-- What stands before the mark does not change where a traceback follows. -/
theorem before_append (text rest seen : List Char) :
    before tracebackMark seen (text ++ (tracebackMark ++ rest)) = before tracebackMark seen text := by
  induction text generalizing seen with
  | nil =>
    have here : tracebackMark.isPrefixOf (tracebackMark ++ rest) = true :=
      List.isPrefixOf_iff_prefix.2 (List.prefix_append _ _)
    rw [List.nil_append]
    exact if_pos here
  | cons c cs ih =>
    rw [List.cons_append]
    unfold before
    by_cases here : tracebackMark.isPrefixOf (c :: cs) = true
    · have there : tracebackMark.isPrefixOf (c :: (cs ++ (tracebackMark ++ rest))) = true :=
        List.isPrefixOf_iff_prefix.2 ((List.isPrefixOf_iff_prefix.1 here).trans (List.prefix_append _ _))
      rw [if_pos here, if_pos there]
    · have there : ¬ tracebackMark.isPrefixOf (c :: (cs ++ (tracebackMark ++ rest))) = true := fun found =>
        here (List.isPrefixOf_iff_prefix.2 (tracebackMark_within (List.isPrefixOf_iff_prefix.1 found)))
      rw [if_neg here, if_neg there, ih]

/-- The traceback that the host adds to a text does not show in the message. -/
theorem stripTraceback_traceback (text : String) :
    stripTraceback (text ++ "\n" ++ Lua.Library.traceback) = stripTraceback text := by
  have marked : (text ++ "\n" ++ Lua.Library.traceback).toList =
      text.toList ++ (tracebackMark ++ "\n\t[C]: in ?".toList) := by
    rw [String.toList_append, String.toList_append, List.append_assoc]
    rfl
  rw [stripTraceback, marked, before_append]
  rfl

/-- Whether the message of an error is its whole text, cut. -/
def isWhole : ScriptError → Bool
  | .callback .. | .context .. | .host _ | .external _ | .runtime _ | .compile _ => false
  | _ => true

/-- Under which message an error is told: a layer or a remark around its cause does not matter, an error of
the host is told as it is, and the text of any other error is cut. -/
inductive IsToldAs : ScriptError → String → Prop where
  | callback {traceback message : String} {cause : ScriptError} (told : IsToldAs cause message) :
      IsToldAs (.callback traceback cause) message
  | context {remark message : String} {cause : ScriptError} (told : IsToldAs cause message) :
      IsToldAs (.context remark cause) message
  | host (cause : BridgeError) : IsToldAs (.host cause) cause.message
  | external (text : String) : IsToldAs (.external text) text
  | runtime {text message : String} (cut : IsCut text.toList message.toList) :
      IsToldAs (.runtime text) message
  | compile {text message : String} (cut : IsCut text.toList message.toList) :
      IsToldAs (.compile text) message
  | whole {e : ScriptError} {message : String} (whole : e.isWhole) (cut : IsCut e.text.toList message.toList) :
      IsToldAs e message

theorem isToldAs_message (e : ScriptError) : e.IsToldAs e.message := by
  induction e with
  | callback traceback cause ih => exact .callback ih
  | context remark cause ih => exact .context ih
  | host cause => exact .host cause
  | external text => exact .external text
  | runtime text => exact .runtime (stripTraceback_isCut text)
  | compile text => exact .compile (stripTraceback_isCut text)
  | _ => exact .whole rfl (stripTraceback_isCut _)

end ScriptError

namespace Lua

/-- Under which message a raised string is told: the text before its first NUL byte, cut, with what is no
UTF-8 replaced. The string that stands for lack of memory is told as such. -/
inductive IsWordedAs (b : ByteArray) : String → Prop where
  | memory (short : .string b = memoryError) : IsWordedAs b (ScriptError.memory memoryMessage).message
  | text {message : String} (plain : .string b ≠ memoryError)
      (cut : ScriptError.IsCut (Text.Utf8.lossy (beforeNul b.toList).toByteArray).toList message.toList) :
      IsWordedAs b message

/-- Under which message a session tells a raised value: an error of the host and a string by themselves, and
any other value by the text that it is converted to, unless its conversion comes back with a failure. -/
inductive Session.Tells (host : Host) (s : Session) : Value → String → Prop where
  | failure {r : Nat} {message : String} (told : (s.heap.failures.getD r default).IsToldAs message) :
      Tells host s (.failure r) message
  | string {b : ByteArray} {message : String} (worded : IsWordedAs b message) :
      Tells host s (.string b) message
  | converted {v : Value} {b : ByteArray} {rest : List Value} {message : String}
      (other : Library.toldError? s.heap v = none)
      (converts : (s.perform host (Library.tellText v)).2 = .returned (.bool true :: .string b :: rest))
      (worded : IsWordedAs b message) : Tells host s v message
  | unconverted {v : Value} {message : String} (other : Library.toldError? s.heap v = none)
      (back : (s.perform host (Library.tellText v)).2 ≠ .absent)
      (fails : ∀ b rest,
        (s.perform host (Library.tellText v)).2 ≠ .returned (.bool true :: .string b :: rest)) :
      Tells host s v message

/-- A value whose telling does not come back: its conversion to a text does not, or gives another value than a text
of which the same is true. -/
inductive Session.IsUntold (host : Host) : Session → Value → Prop where
  | absent {s : Session} {v : Value} (other : Library.toldError? s.heap v = none)
      (absent : (s.perform host (Library.tellText v)).2 = .absent) : IsUntold host s v
  | fails {s s' : Session} {v flag e : Value} {rest : List Value} (other : Library.toldError? s.heap v = none)
      (fails : s.perform host (Library.tellText v) = (s', .returned (flag :: e :: rest)))
      (later : IsUntold host s' e) : IsUntold host s v

/-- A string is told as an error with its text. -/
theorem isWordedAs_told {h : Heap} {b : ByteArray} {told : ScriptError}
    (same : Library.toldError? h (.string b) = some told) : IsWordedAs b told.message := by
  simp only [Library.toldError?] at same
  by_cases short : (Value.string b == memoryError) = true
  · rw [if_pos short] at same
    obtain rfl := Option.some.inj same
    exact .memory (eq_of_beq short)
  · rw [if_neg short] at same
    obtain rfl := Option.some.inj same
    refine .text (fun same => short (beq_iff_eq.2 same)) ?_
    rw [ScriptError.message, ScriptError.stripTraceback_traceback]
    exact ScriptError.stripTraceback_isCut _

namespace Session

/-- Telling a text comes back. -/
theorem isWordedAs_tellErrorWithin (host : Host) (fuel : Nat) (s : Session) (b : ByteArray) :
    ∃ told, (tellErrorWithin host (fuel + 1) s (.string b)).2 = some told ∧ IsWordedAs b told.message := by
  rw [tellErrorWithin]
  cases told : Library.toldError? s.heap (.string b) with
  | some e => exact ⟨e, rfl, isWordedAs_told told⟩
  | none =>
    simp only [Library.toldError?] at told
    split at told
    · cases told
    · cases told

/-- A value that is converted to another one, or fails with it, is told as that. -/
theorem tellErrorWithin_of_returned {host : Host} {s s' : Session} {v flag e : Value} {rest : List Value}
    (other : Library.toldError? s.heap v = none)
    (converts : s.perform host (Library.tellText v) = (s', .returned (flag :: e :: rest))) (fuel : Nat) :
    tellErrorWithin host (fuel + 1) s v = tellErrorWithin host fuel s' e := by
  rw [tellErrorWithin, other, converts]
  cases flag with
  | bool b =>
    cases b with
    | true => rfl
    | false => rfl
  | _ => rfl

/-- Where a value is not told, its telling does not come back. -/
theorem isUntold_of_tellErrorWithin {host : Host} {fuel : Nat} {s : Session} {v : Value}
    (untold : (tellErrorWithin host fuel s v).2 = none) : s.IsUntold host v := by
  -- Induction on the conversions: each gives the value that is told next.
  induction fuel generalizing s v with
  | zero => cases untold
  | succ fuel ih =>
    cases told : Library.toldError? s.heap v with
    | some e => simp [tellErrorWithin, told] at untold
    | none =>
      cases ends : s.perform host (Library.tellText v) with
      | mk s' ending =>
        cases ending with
        | returned vs =>
          rcases vs with _ | ⟨flag, _ | ⟨e, rest⟩⟩
          · simp [tellErrorWithin, told, ends] at untold
          · simp [tellErrorWithin, told, ends] at untold
          · rw [tellErrorWithin_of_returned told ends] at untold
            exact .fails told ends (ih untold)
        | raised e => simp [tellErrorWithin, told, ends] at untold
        | absent => exact .absent told (by rw [ends])

/-- Telling a string comes back. -/
theorem exists_told_string (host : Host) (s : Session) (b : ByteArray) :
    ∃ told, (s.tellError host (.string b)).2 = some told := by
  obtain ⟨told, same, -⟩ := isWordedAs_tellErrorWithin host 199 s b
  exact ⟨told, same⟩

/-- Every raised value is told under its message, or telling it does not come back. -/
theorem tells_or_isUntold (host : Host) (s : Session) (v : Value) :
    (∃ told, (s.tellError host v).2 = some told ∧ s.Tells host v told.message) ∨
      (s.tellError host v).2 = none ∧ s.IsUntold host v := by
  have first : s.tellError host v = tellErrorWithin host (199 + 1) s v := rfl
  cases answer : (s.tellError host v).2 with
  | none => exact .inr ⟨rfl, isUntold_of_tellErrorWithin answer⟩
  | some told =>
    refine .inl ⟨told, rfl, ?_⟩
    cases known : Library.toldError? s.heap v with
    | some e =>
      rw [first, tellErrorWithin, known] at answer
      obtain rfl := Option.some.inj answer
      cases v with
      | failure r =>
        obtain rfl := Option.some.inj known
        exact .failure (ScriptError.isToldAs_message _)
      | string b => exact .string (isWordedAs_told known)
      | _ => cases known
    | none =>
      by_cases converts : ∃ b rest,
          (s.perform host (Library.tellText v)).2 = .returned (.bool true :: .string b :: rest)
      · obtain ⟨b, rest, converts⟩ := converts
        refine .converted known converts ?_
        rw [first, tellErrorWithin_of_returned known (Prod.ext rfl converts)] at answer
        obtain ⟨told', same, worded⟩ := isWordedAs_tellErrorWithin host 198 _ b
        obtain rfl := Option.some.inj (answer.symm.trans same)
        exact worded
      · refine .unconverted known (fun absent => ?_) fun b rest same => converts ⟨b, rest, same⟩
        rw [first, tellErrorWithin, known] at answer
        have whole : s.perform host (Library.tellText v) =
            ((s.perform host (Library.tellText v)).1, .absent) := Prod.ext rfl absent
        rw [whole] at answer
        cases answer

end Session

end Lua

end VaultConsole
