import VaultConsole.Proofs.Messages

/-!
# Causes of errors

An error is a root cause in layers: tracebacks of host functions that it passed through, and remarks
(`exists_wrap`). Its message is that of the root, whatever the layers are. A cause that the host tells is told as
it is, and the text of another one is cleaned: `IsCleaned` says that what is left is the longest beginning of the
text that reaches into no traceback and ends in no blank character. Nothing is left to clean then, so a message
that is folded again stays as it is (`stripTraceback_eq_self`).
-/

namespace VaultConsole

namespace ScriptError

/-! ## Layers -/

/-- A layer around the cause of an error. -/
inductive Layer where
  | callback (traceback : String)
  | context (remark : String)
  deriving DecidableEq

/-- An error with one more layer. -/
def Layer.around : Layer → ScriptError → ScriptError
  | .callback traceback, cause => .callback traceback cause
  | .context remark, cause => .context remark cause

/-- A root cause in layers, the outermost one first. -/
def wrap (layers : List Layer) (root : ScriptError) : ScriptError := layers.foldr Layer.around root

/-- Whether an error has no layer. -/
def isRoot : ScriptError → Bool
  | .callback .. | .context .. => false
  | _ => true

/-- Whether an error is one that the host tells in its own words. -/
def isExternal : ScriptError → Bool
  | .host _ | .external _ => true
  | _ => false

/-- The text of a root cause: what was raised or what the compiler says, without the kind of the error before
it, and the full text of another error. -/
def rootText : ScriptError → String
  | .runtime t => t
  | .compile t => t
  | e => e.text

/-- Every error is a root cause in layers. -/
theorem exists_wrap (e : ScriptError) : ∃ layers root, root.isRoot = true ∧ e = wrap layers root := by
  induction e with
  | callback traceback cause ih =>
    obtain ⟨layers, root, isRoot, rfl⟩ := ih
    exact ⟨.callback traceback :: layers, root, isRoot, rfl⟩
  | context remark cause ih =>
    obtain ⟨layers, root, isRoot, rfl⟩ := ih
    exact ⟨.context remark :: layers, root, isRoot, rfl⟩
  | _ => exact ⟨[], _, rfl, rfl⟩

/-- Layers do not show in the message. -/
theorem message_wrap (layers : List Layer) (root : ScriptError) : (wrap layers root).message = root.message := by
  induction layers with
  | nil => rfl
  | cons layer layers ih =>
    cases layer with
    | callback traceback => exact ih
    | context remark => exact ih

theorem message_of_isExternal {root : ScriptError} (external : root.isExternal = true) :
    root.message = root.text := by
  cases root with
  | host cause => rfl
  | external text => rfl
  | _ => cases external

theorem message_of_isRoot {root : ScriptError} (isRoot : root.isRoot = true) (own : root.isExternal = false) :
    root.message = stripTraceback root.rootText := by
  cases root with
  | callback traceback cause => cases isRoot
  | context remark cause => cases isRoot
  | host cause => cases own
  | external text => cases own
  | _ => rfl

/-! ## Cleaning a text -/

/-- Whether a text begins so, before any traceback, and the beginning does not end in a blank character. -/
structure IsClean (text front : List Char) : Prop where
  begins : front <+: text
  before : ∀ p q, text = p ++ (tracebackMark ++ q) → front.length ≤ p.length
  ends : ∀ c, front.getLast? = some c → Text.isBlank c = false

/-- The longest clean beginning of a text. -/
structure IsCleaned (text message : List Char) : Prop where
  clean : IsClean text message
  longest : ∀ front, IsClean text front → front.length ≤ message.length

variable {text message kept front : List Char}

/-- What stands before the first mark is as long as any beginning that reaches into none. -/
theorem IsBefore.prefix_kept (isBefore : IsBefore tracebackMark text kept) (clean : IsClean text front) :
    front <+: kept := by
  obtain ⟨⟨rest, split, ends⟩, -⟩ := isBefore
  refine List.prefix_of_prefix_length_le clean.begins ⟨rest, split.symm⟩ ?_
  obtain rfl | ⟨q, rfl⟩ := ends
  · rw [List.append_nil] at split
    exact split ▸ clean.begins.length_le
  · exact clean.before kept q split

/-- A cut of a text is its longest clean beginning. -/
theorem IsCut.isCleaned (cut : IsCut text message) : IsCleaned text message := by
  obtain ⟨kept, blanks, isBefore, split, blank, ends⟩ := cut
  obtain ⟨rest, whole, -⟩ := isBefore.rest
  have within : message <+: kept := ⟨blanks, split.symm⟩
  refine ⟨⟨within.trans ⟨rest, whole.symm⟩, fun p q found => ?_, ends⟩, fun front clean => ?_⟩
  · exact Nat.le_trans within.length_le (isBefore.first p q found)
  · -- A longer beginning would end in one of the blanks that were dropped.
    refine Nat.le_of_not_lt fun longer => ?_
    have among := isBefore.prefix_kept clean
    obtain ⟨more, rfl⟩ := List.prefix_of_prefix_length_le within among (Nat.le_of_lt longer)
    rw [split, List.prefix_append_right_inj] at among
    obtain rfl | ⟨init, last, rfl⟩ := List.eq_nil_or_concat more
    · rw [List.append_nil] at longer
      exact Nat.lt_irrefl _ longer
    · have isBlank : Text.isBlank last = true := blank last (among.subset (by simp))
      have notBlank : Text.isBlank last = false := clean.ends last (by simp)
      rw [isBlank] at notBlank
      cases notBlank

/-- A clean beginning holds no mark, since none of it is at the first mark or after it. -/
theorem IsClean.unmarked (clean : IsClean text front) : ¬ tracebackMark <:+: front := by
  rintro ⟨p, q, rfl⟩
  obtain ⟨rest, split⟩ := clean.begins
  have short := clean.before p (q ++ rest) (by rw [← split]; simp)
  have marked : 0 < tracebackMark.length := by decide
  rw [List.length_append, List.length_append] at short
  omega

/-- A text has one longest clean beginning. -/
theorem IsCleaned.unique {message' : List Char} (cleaned : IsCleaned text message)
    (cleaned' : IsCleaned text message') : message = message' := by
  have shorter := cleaned'.longest message cleaned.clean
  have longer := cleaned.longest message' cleaned'.clean
  exact (List.prefix_of_prefix_length_le cleaned.clean.begins cleaned'.clean.begins shorter).eq_of_length_le longer

/-- A clean text is all that is left of it. -/
theorem IsClean.isCleaned_self (clean : IsClean text message) : IsCleaned message message where
  clean :=
    { begins := List.prefix_rfl
      before := fun p q found => absurd ⟨p, q, by rw [found, List.append_assoc]⟩ clean.unmarked
      ends := clean.ends }
  longest _ clean' := clean'.begins.length_le

theorem stripTraceback_isCleaned (text : String) :
    IsCleaned text.toList (stripTraceback text).toList :=
  (stripTraceback_isCut text).isCleaned

/-- Nothing is left to clean of a clean text. -/
theorem stripTraceback_eq_self {text message : String} (clean : IsClean text.toList message.toList) :
    stripTraceback message = message :=
  String.toList_inj.1 ((stripTraceback_isCleaned message).unique clean.isCleaned_self)

/-! ## Messages -/

/-- How the message of an error comes from its root cause. -/
structure Folds (layers : List Layer) (root : ScriptError) : Prop where
  /-- The message is that of the root alone. -/
  layered : (wrap layers root).message = root.message
  /-- An error of the host is told with its text. -/
  external : root.isExternal = true → root.message = root.text
  /-- The text of another root is cleaned, -/
  cleaned : root.isRoot = true → root.isExternal = false →
    IsCleaned root.rootText.toList root.message.toList
  /-- so that no mark of a traceback is left in it, -/
  unmarked : root.isRoot = true → root.isExternal = false → ¬ tracebackMark <:+: root.message.toList
  /-- and the message stays as it is when it is told again, in any layers. -/
  settled : root.isRoot = true → root.isExternal = false → ∀ layers',
    (wrap layers' (.runtime root.message)).message = root.message ∧
      (wrap layers' (.compile root.message)).message = root.message

/-- **Root causes.** Every error is a root cause in layers, and its message is that of the root, cleaned once
and for all. -/
theorem message_folds :
    (∀ e, ∃ layers root, root.isRoot = true ∧ e = wrap layers root) ∧
      ∀ layers root, Folds layers root := by
  refine ⟨exists_wrap, fun layers root => ?_⟩
  have cleaned : root.isRoot = true → root.isExternal = false →
      IsCleaned root.rootText.toList root.message.toList := by
    intro isRoot own
    rw [message_of_isRoot isRoot own]
    exact stripTraceback_isCleaned _
  refine ⟨message_wrap layers root, message_of_isExternal, cleaned, ?_, ?_⟩
  · exact fun isRoot own => (cleaned isRoot own).clean.unmarked
  · intro isRoot own layers'
    have settled := stripTraceback_eq_self (cleaned isRoot own).clean
    exact ⟨(message_wrap layers' _).trans settled, (message_wrap layers' _).trans settled⟩

/-- The mark may stand at the beginning of a text, in which case nothing of it is told. -/
example :
    (wrap [.callback "stack traceback:", .context "in f"] (.runtime "\nstack traceback:\n\t?")).message = "" := by
  decide

end ScriptError

end VaultConsole
