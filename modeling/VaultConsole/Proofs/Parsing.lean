import Mathlib.Data.List.Basic
import VaultConsole.Lua.Parser

/-!
# Parsing with more room

What a parser reads does not depend on how much fuel it has or how many levels of nesting are in use, as long as
there is enough of both: with more room it reads the same. Besides, a parser only goes forward. Both are told at
once by `Below`, whose instances follow the way in which parsers are built.
-/

namespace VaultConsole.Lua.Parser

/-! ## Reading -/

/-- A parser reads a result in a state and leaves another one. -/
def Reads (p : Parse α) (s : State) (a : α) (s' : State) : Prop := p.run s = .ok (a, s')

namespace Reads

variable {p : Parse α} {s s' : State} {a : α}

theorem unique {a' : α} {s'' : State} (h : Reads p s a s') (h' : Reads p s a' s'') : a = a' ∧ s' = s'' := by
  cases (Except.ok.inj (Eq.trans (Eq.symm h) h'))
  exact ⟨rfl, rfl⟩

end Reads

/-- The current token of a state with its place. -/
def State.head (s : State) : Lexeme := s.rest.headD default

/-- The current token of a state. -/
def State.token (s : State) : Token := s.head.token

@[simp] theorem State.head_token (s : State) : s.head.token = s.token := rfl

variable {s s' : State} {a : α}

@[simp] theorem reads_pure {b : α} : Reads (pure a) s b s' ↔ a = b ∧ s = s' :=
  ⟨fun h => by cases h; exact ⟨rfl, rfl⟩, fun ⟨same, still⟩ => same ▸ still ▸ rfl⟩

@[simp] theorem reads_get {k : State} : Reads get s k s' ↔ s = k ∧ s = s' := reads_pure

@[simp] theorem reads_set {k : State} {u : PUnit} : Reads (set k) s u s' ↔ k = s' :=
  ⟨fun h => by cases h; rfl, fun same => same ▸ rfl⟩

/-- A sequence of parsers reads what they read one after the other. -/
@[simp] theorem reads_bind {p : Parse β} {f : β → Parse α} :
    Reads (p >>= f) s a s' ↔ ∃ b s1, Reads p s b s1 ∧ Reads (f b) s1 a s' := by
  unfold Reads
  rw [StateT.run_bind]
  cases p.run s with
  | error fault => exact ⟨nofun, nofun⟩
  | ok found =>
    exact ⟨fun h => ⟨found.1, found.2, rfl, h⟩, fun ⟨_, _, same, h⟩ => by cases same; exact h⟩

@[simp] theorem reads_map {p : Parse β} {f : β → α} :
    Reads (f <$> p) s a s' ↔ ∃ b, Reads p s b s' ∧ f b = a := by
  rw [map_eq_pure_bind, reads_bind]
  simp only [reads_pure]
  exact ⟨fun ⟨b, _, read, same, still⟩ => ⟨b, still ▸ read, same⟩,
    fun ⟨b, read, same⟩ => ⟨b, _, read, same, rfl⟩⟩

@[simp] theorem reads_ite {c : Prop} [Decidable c] {p q : Parse α} :
    Reads (if c then p else q) s a s' ↔ (c ∧ Reads p s a s') ∨ (¬ c ∧ Reads q s a s') := by
  by_cases h : c <;> simp [h]

@[simp] theorem not_reads_throw (fault : CompileFault) : ¬ Reads (throw fault) s a s' := nofun

@[simp] theorem not_reads_failWith (message : List UInt8) (near : Bool) :
    ¬ Reads (failWith message near) s a s' := nofun

@[simp] theorem not_reads_fail (message : String) : ¬ Reads (fail message) s a s' := nofun

@[simp] theorem not_reads_failExpected (m : Mark) : ¬ Reads (failExpected m) s a s' := nofun

@[simp] theorem reads_current {l : Lexeme} : Reads current s l s' ↔ s.head = l ∧ s = s' :=
  reads_pure

@[simp] theorem reads_line {n : Nat} : Reads line s n s' ↔ s.head.line = n ∧ s = s' := reads_pure

@[simp] theorem reads_lastLine {n : Nat} : Reads lastLine s n s' ↔ s.lastLine = n ∧ s = s' := reads_pure

@[simp] theorem reads_at? {m : Mark} {here : Bool} :
    Reads (at? m) s here s' ↔ (s.token == .mark m) = here ∧ s = s' := reads_pure

/-- The current token is taken, and another one can be read behind it unless it is the last. -/
theorem reads_advance {u : Unit} : Reads advance s u s' ↔
    (∃ l l' r, s.rest = l :: l' :: r ∧ s' = { s with rest := l' :: r, lastLine := l.line }) ∨
    (∃ l, s.rest = [l] ∧ s.fault? = none ∧ s' = { s with lastLine := l.line }) ∨
    (s.rest = [] ∧ s' = s) := by
  obtain ⟨rest, fault?, last, scopes⟩ := s
  unfold advance
  match rest, fault? with
  | [], _ => simp [eq_comm]
  | [l], none => simp [eq_comm]
  | [l], some fault => simp
  | l :: l' :: r, _ => simp [eq_comm]

/-- The result of going on says nothing. -/
@[simp] theorem exists_reads_advance : (∃ u, Reads advance s u s') ↔ Reads advance s () s' :=
  ⟨fun ⟨_, h⟩ => h, fun h => ⟨(), h⟩⟩

@[simp] theorem reads_accept {m : Mark} {taken : Bool} : Reads (accept m) s taken s' ↔
    (s.token = .mark m ∧ taken = true ∧ Reads advance s () s') ∨
    (s.token ≠ .mark m ∧ taken = false ∧ s = s') := by
  unfold accept
  by_cases here : s.token = .mark m <;> cases taken <;> simp [here]

/-- A mark that may be there decides how reading goes on. -/
theorem reads_accept_ite {m : Mark} {p q : Parse α} :
    Reads (accept m >>= fun taken => if taken = true then p else q) s a s' ↔
      (s.token = .mark m ∧ ∃ s1, Reads advance s () s1 ∧ Reads p s1 a s') ∨
        (s.token ≠ .mark m ∧ Reads q s a s') := by
  by_cases here : s.token = .mark m <;> simp [here]

@[simp] theorem reads_expect {m : Mark} {u : Unit} :
    Reads (expect m) s u s' ↔ s.token = .mark m ∧ Reads advance s () s' := by
  unfold expect
  by_cases here : s.token = .mark m <;> simp [here]

@[simp] theorem reads_expectName {name : ByteArray} :
    Reads expectName s name s' ↔ s.token = .name name ∧ Reads advance s () s' := by
  unfold expectName
  simp only [reads_bind, reads_current]
  constructor
  · rintro ⟨l, s1, ⟨rfl, rfl⟩, read⟩
    rw [State.head_token] at read
    split at read
    · rename_i found here
      simp at read
      obtain ⟨read, rfl⟩ := read
      exact ⟨here, read⟩
    · exact absurd read (not_reads_fail _)
  · rintro ⟨here, read⟩
    refine ⟨_, s, ⟨rfl, rfl⟩, ?_⟩
    simp only [State.head_token, here]
    exact reads_bind.2 ⟨_, _, read, reads_pure.2 ⟨rfl, rfl⟩⟩

@[simp] theorem reads_enter {level level' : Nat} :
    Reads (enter level) s level' s' ↔ level + 1 < maxNesting ∧ level + 1 = level' ∧ s = s' := by
  unfold enter
  by_cases deep : level + 1 ≥ maxNesting
  · rw [if_pos deep]
    exact ⟨nofun, fun ⟨shallow, _⟩ => absurd shallow (Nat.not_lt_of_le deep)⟩
  · simp [deep, Nat.lt_of_not_le deep]

/-! ## More room -/

/-- Where `p` succeeds, `q` does the same, and what is left is an end of what was there. -/
class Below (p q : Parse α) : Prop where
  agree : ∀ {s s' : State} {a : α}, Reads p s a s' → Reads q s a s'
  forward : ∀ {s s' : State} {a : α}, Reads p s a s' → s'.rest <:+ s.rest

namespace Below

variable {p q : Parse α} {f g : α → Parse β}

instance bind [first : Below p q] [next : ∀ a, Below (f a) (g a)] : Below (p >>= f) (q >>= g) where
  agree h := by
    obtain ⟨a, s1, h1, h2⟩ := reads_bind.1 h
    exact reads_bind.2 ⟨a, s1, first.agree h1, (next a).agree h2⟩
  forward h := by
    obtain ⟨a, s1, h1, h2⟩ := reads_bind.1 h
    exact ((next a).forward h2).trans (first.forward h1)

/-- Goes on after a first parser, for a continuation whose cases have to be told apart. -/
theorem andThen [Below p q] (next : ∀ a, Below (f a) (g a)) : Below (p >>= f) (q >>= g) := bind

/-- A parser that changes the state to one that is not before it, or fails. -/
theorem of_forward (h : ∀ {s s' : State} {a : α}, Reads p s a s' → s'.rest <:+ s.rest) : Below p p :=
  ⟨id, h⟩

instance pure (a : α) : Below (pure a : Parse α) (pure a) :=
  of_forward fun h => by cases h; exact List.suffix_rfl

instance map {k : α → β} [Below p q] : Below (k <$> p) (k <$> q) := by
  rw [map_eq_pure_bind, map_eq_pure_bind]
  infer_instance

instance ite {c : Prop} [Decidable c] {p' q' : Parse α} [Below p q] [Below p' q'] :
    Below (if c then p else p') (if c then q else q') := by
  split <;> infer_instance

instance throw (fault : CompileFault) : Below (throw fault) q := ⟨nofun, nofun⟩

instance get : Below (get : Parse State) get :=
  of_forward fun h => by cases h; exact List.suffix_rfl

theorem modify {k : State → State} (same : ∀ s, (k s).rest = s.rest) :
    Below (modify k : Parse Unit) (modify k) :=
  of_forward fun {s _ _} h => by cases h; exact same s ▸ List.suffix_rfl

instance modifyScope (k : FunctionScope → FunctionScope) : Below (modifyScope k) (modifyScope k) :=
  modify fun _ => rfl

instance failWith (message : List UInt8) (near : Bool) : Below (failWith message near) q := ⟨nofun, nofun⟩

instance failWithBind (message : List UInt8) (near : Bool) {β : Type} {k : β → Parse α} :
    Below (Parser.failWith message near >>= k) q := ⟨nofun, nofun⟩

instance fail (message : String) : Below (fail message) q := failWith _ _

instance failExpected (m : Mark) : Below (failExpected m) q := failWith _ _

/-! ## Tokens and scopes -/

instance current : Below current current := by
  unfold Parser.current
  infer_instance

instance at? (m : Mark) : Below (at? m) (at? m) := by
  unfold Parser.at?
  infer_instance

instance advance : Below advance advance := by
  refine of_forward fun {s s' a} h => ?_
  obtain ⟨l, l', r, rest, rfl⟩ | ⟨l, -, -, rfl⟩ | ⟨-, rfl⟩ := reads_advance.1 h
  · exact rest ▸ List.suffix_cons l (l' :: r)
  · exact List.suffix_rfl
  · exact List.suffix_rfl

instance accept (m : Mark) : Below (accept m) (accept m) := by
  unfold Parser.accept
  infer_instance

instance expect (m : Mark) : Below (expect m) (expect m) := by
  unfold Parser.expect
  infer_instance

instance expectClosing (m opener : Mark) (line : Nat) :
    Below (expectClosing m opener line) (expectClosing m opener line) := by
  unfold Parser.expectClosing
  infer_instance

instance expectName : Below expectName expectName := by
  unfold Parser.expectName
  refine andThen fun l => ?_
  split <;> infer_instance

instance lastLine : Below lastLine lastLine := by
  unfold Parser.lastLine
  infer_instance

instance line : Below line line := by
  unfold Parser.line
  infer_instance

instance scope : Below scope scope := by
  unfold Parser.scope
  infer_instance

instance checkLocals (pending : Nat) : Below (checkLocals pending) (checkLocals pending) := by
  unfold Parser.checkLocals
  infer_instance

instance declare (names : List (ByteArray × Attribute)) : Below (declare names) (declare names) := by
  unfold Parser.declare
  infer_instance

instance failJump (j : PendingJump) : Below (failJump j) q := by
  unfold Parser.failJump
  split <;> infer_instance

instance closeBlock : Below closeBlock closeBlock := by
  unfold Parser.closeBlock
  refine andThen fun f => ?_
  split
  refine andThen fun _ => ?_
  split <;> infer_instance

instance inBlock (isLoop : Bool) [Below p q] : Below (inBlock isLoop p) (inBlock isLoop q) := by
  unfold Parser.inBlock
  infer_instance

instance checkAssignable (e : Expr) : Below (checkAssignable e) (checkAssignable e) := by
  unfold Parser.checkAssignable
  split
  · refine andThen fun s => ?_
    split <;> infer_instance
  · infer_instance

instance parseAttribute : Below parseAttribute parseAttribute := by
  unfold Parser.parseAttribute
  infer_instance

instance acceptSeparator : Below acceptSeparator acceptSeparator := by
  unfold Parser.acceptSeparator
  infer_instance

/-! ## The grammar -/

section Names

variable {fuel fuel' : Nat}

theorem parseParameters (more : fuel ≤ fuel') (names : List ByteArray) :
    Below (parseParameters fuel names) (parseParameters fuel' names) := by
  induction fuel generalizing fuel' names with
  | zero => exact fail _
  | succ fuel ih =>
    obtain ⟨fuel', rfl⟩ : ∃ k, fuel' = k + 1 := Nat.exists_eq_add_one.2 (Nat.zero_lt_of_lt more)
    have ih := ih (Nat.le_of_succ_le_succ more)
    rw [Parser.parseParameters, Parser.parseParameters]
    refine andThen fun l => ?_
    split <;> infer_instance

theorem parseLocals (more : fuel ≤ fuel') (names : List (ByteArray × Attribute)) :
    Below (parseLocals fuel names) (parseLocals fuel' names) := by
  induction fuel generalizing fuel' names with
  | zero => exact fail _
  | succ fuel ih =>
    obtain ⟨fuel', rfl⟩ : ∃ k, fuel' = k + 1 := Nat.exists_eq_add_one.2 (Nat.zero_lt_of_lt more)
    have ih := ih (Nat.le_of_succ_le_succ more)
    rw [Parser.parseLocals, Parser.parseLocals]
    infer_instance

theorem parseLoopNames (more : fuel ≤ fuel') (names : List ByteArray) :
    Below (parseLoopNames fuel names) (parseLoopNames fuel' names) := by
  induction fuel generalizing fuel' names with
  | zero => exact fail _
  | succ fuel ih =>
    obtain ⟨fuel', rfl⟩ : ∃ k, fuel' = k + 1 := Nat.exists_eq_add_one.2 (Nat.zero_lt_of_lt more)
    have ih := ih (Nat.le_of_succ_le_succ more)
    rw [Parser.parseLoopNames, Parser.parseLoopNames]
    infer_instance

theorem parseFunctionName (more : fuel ≤ fuel') (e : Expr) :
    Below (parseFunctionName fuel e) (parseFunctionName fuel' e) := by
  induction fuel generalizing fuel' e with
  | zero => exact fail _
  | succ fuel ih =>
    obtain ⟨fuel', rfl⟩ : ∃ k, fuel' = k + 1 := Nat.exists_eq_add_one.2 (Nat.zero_lt_of_lt more)
    have ih := ih (Nat.le_of_succ_le_succ more)
    rw [Parser.parseFunctionName, Parser.parseFunctionName]
    infer_instance

end Names

end Below

set_option synthInstance.maxSize 8192

/-- All that is read with some fuel at a level is read with other fuel at another level. -/
class Covers (fuel level fuel' level' : Nat) : Prop where
  operators limit : Below (parseOperators fuel level limit) (parseOperators fuel' level' limit)
  operatorTail limit left :
    Below (parseOperatorTail fuel level limit left) (parseOperatorTail fuel' level' limit left)
  simple : Below (parseSimple fuel level) (parseSimple fuel' level')
  primary : Below (parsePrimary fuel level) (parsePrimary fuel' level')
  suffixed : Below (parseSuffixed fuel level) (parseSuffixed fuel' level')
  suffixes e : Below (parseSuffixes fuel level e) (parseSuffixes fuel' level' e)
  key : Below (parseKey fuel level) (parseKey fuel' level')
  arguments : Below (parseArguments fuel level) (parseArguments fuel' level')
  exprs : Below (parseExprs fuel level) (parseExprs fuel' level')
  table : Below (parseTable fuel level) (parseTable fuel' level')
  fields : Below (parseFields fuel level) (parseFields fuel' level')
  body isMethod l : Below (parseBody fuel level isMethod l) (parseBody fuel' level' isMethod l)
  block : Below (parseBlock fuel level) (parseBlock fuel' level')
  «return» : Below (parseReturn fuel level) (parseReturn fuel' level')
  inner : Below (parseInner fuel level) (parseInner fuel' level')
  statement : Below (parseStatement fuel level) (parseStatement fuel' level')
  «if» : Below (parseIf fuel level) (parseIf fuel' level')
  «for» s l : Below (parseFor fuel level s l) (parseFor fuel' level' s l)
  settled : Below (parseSettled fuel level) (parseSettled fuel' level')
  assignment target targets :
    Below (parseAssignment fuel level target targets) (parseAssignment fuel' level' target targets)
  label l : Below (parseLabel fuel level l) (parseLabel fuel' level' l)
  noOps : Below (parseNoOps fuel level) (parseNoOps fuel' level')

attribute [instance] Covers.operators
  Covers.operatorTail Covers.simple Covers.primary Covers.suffixed Covers.suffixes Covers.key Covers.arguments
  Covers.exprs Covers.table Covers.fields Covers.body Covers.block Covers.return Covers.inner Covers.statement
  Covers.if Covers.for Covers.settled Covers.assignment Covers.label Covers.noOps

namespace Covers

variable {fuel level fuel' level' : Nat}

/-- Without fuel nothing is read. -/
theorem zero : Covers 0 level fuel' level' := by
  constructor
  all_goals
    intros
    simp only [parseOperators, parseOperatorTail, parseSimple, parsePrimary, parseSuffixed, parseSuffixes,
      parseKey, parseArguments, parseExprs, parseTable, parseFields, parseBody, parseBlock, parseReturn,
      parseInner, parseStatement, parseIf, parseFor, parseSettled, parseAssignment, parseLabel, parseNoOps]
    infer_instance

/-- A level of nesting that can be entered can be entered with fewer levels in use. -/
theorem entered {f g : Nat → Parse α} (lower : level' ≤ level)
    (next : Below (f (level + 1)) (g (level' + 1))) : Below (enter level >>= f) (enter level' >>= g) := by
  unfold enter
  split
  · exact ⟨nofun, nofun⟩
  · rw [if_neg (by omega)]
    exact ⟨next.agree, next.forward⟩

section Step

variable [Covers fuel level fuel' level']

theorem operators_succ {level level' : Nat} (lower : level' ≤ level)
    [Covers fuel (level + 1) fuel' (level' + 1)] (limit : Nat) :
    Below (parseOperators (fuel + 1) level limit) (parseOperators (fuel' + 1) level' limit) := by
  rw [parseOperators, parseOperators]
  refine entered lower (.andThen fun l => ?_)
  dsimp only
  split <;> infer_instance

theorem operatorTail_succ (limit : Nat) (left : Expr) :
    Below (parseOperatorTail (fuel + 1) level limit left)
      (parseOperatorTail (fuel' + 1) level' limit left) := by
  rw [parseOperatorTail, parseOperatorTail]
  refine .andThen fun l => ?_
  split <;> infer_instance

theorem simple_succ : Below (parseSimple (fuel + 1) level) (parseSimple (fuel' + 1) level') := by
  rw [parseSimple, parseSimple]
  refine .andThen fun l => ?_
  split <;> infer_instance

theorem primary_succ : Below (parsePrimary (fuel + 1) level) (parsePrimary (fuel' + 1) level') := by
  rw [parsePrimary, parsePrimary]
  refine .andThen fun l => ?_
  split <;> infer_instance

theorem suffixed_succ : Below (parseSuffixed (fuel + 1) level) (parseSuffixed (fuel' + 1) level') := by
  rw [parseSuffixed, parseSuffixed]
  infer_instance

theorem suffixes_succ (e : Expr) :
    Below (parseSuffixes (fuel + 1) level e) (parseSuffixes (fuel' + 1) level' e) := by
  rw [parseSuffixes, parseSuffixes]
  refine .andThen fun l => ?_
  split <;> infer_instance

theorem key_succ : Below (parseKey (fuel + 1) level) (parseKey (fuel' + 1) level') := by
  rw [parseKey, parseKey]
  infer_instance

theorem arguments_succ : Below (parseArguments (fuel + 1) level) (parseArguments (fuel' + 1) level') := by
  rw [parseArguments, parseArguments]
  refine .andThen fun l => ?_
  split <;> infer_instance

theorem exprs_succ : Below (parseExprs (fuel + 1) level) (parseExprs (fuel' + 1) level') := by
  rw [parseExprs, parseExprs]
  infer_instance

theorem table_succ : Below (parseTable (fuel + 1) level) (parseTable (fuel' + 1) level') := by
  rw [parseTable, parseTable]
  infer_instance

theorem fields_succ : Below (parseFields (fuel + 1) level) (parseFields (fuel' + 1) level') := by
  rw [parseFields, parseFields]
  refine .andThen fun closes => ?_
  split
  · infer_instance
  · refine .andThen fun s => .andThen fun l => ?_
    dsimp only
    split <;> infer_instance

theorem body_succ (more : fuel ≤ fuel') (isMethod : Bool) (l : Nat) :
    Below (parseBody (fuel + 1) level isMethod l) (parseBody (fuel' + 1) level' isMethod l) := by
  rw [parseBody, parseBody]
  have parameters := Below.parseParameters more []
  have changes : ∀ k : List FunctionScope → List FunctionScope,
      Below (modify fun s => { s with scopes := k s.scopes } : Parse Unit)
        (modify fun s => { s with scopes := k s.scopes }) := fun k => .modify fun _ => rfl
  have entered := changes fun scopes => ⟨[], [⟨0, false, [], []⟩], false, l⟩ :: scopes
  have left := changes (·.drop 1)
  refine .andThen fun _ => .andThen fun _ => .andThen fun _ => .andThen fun isEmpty => ?_
  dsimp only
  split
  · infer_instance
  · infer_instance

theorem block_succ (lower : level' ≤ level) [Covers fuel (level + 1) fuel' (level' + 1)] :
    Below (parseBlock (fuel + 1) level) (parseBlock (fuel' + 1) level') := by
  rw [parseBlock, parseBlock]
  refine .andThen fun l => ?_
  dsimp only
  split
  · infer_instance
  · split
    · exact entered lower inferInstance
    · infer_instance

theorem return_succ : Below (parseReturn (fuel + 1) level) (parseReturn (fuel' + 1) level') := by
  rw [parseReturn, parseReturn]
  infer_instance

theorem inner_succ : Below (parseInner (fuel + 1) level) (parseInner (fuel' + 1) level') := by
  rw [parseInner, parseInner]
  infer_instance

theorem statement_succ {level level' : Nat} (more : fuel ≤ fuel') (lower : level' ≤ level)
    [Covers fuel (level + 1) fuel' (level' + 1)] :
    Below (parseStatement (fuel + 1) level) (parseStatement (fuel' + 1) level') := by
  rw [parseStatement, parseStatement]
  have names := Below.parseFunctionName more
  have locals := Below.parseLocals more
  refine entered lower (.andThen fun line => .andThen fun l => ?_)
  split <;> infer_instance

theorem if_succ : Below (parseIf (fuel + 1) level) (parseIf (fuel' + 1) level') := by
  rw [parseIf, parseIf]
  infer_instance

theorem for_succ (more : fuel ≤ fuel') (s : ByteArray) (l : Nat) :
    Below (parseFor (fuel + 1) level s l) (parseFor (fuel' + 1) level' s l) := by
  rw [parseFor, parseFor]
  have names := Below.parseLoopNames more [s]
  refine .andThen fun isNumeric => ?_
  dsimp only
  split
  · infer_instance
  · infer_instance

theorem settled_succ : Below (parseSettled (fuel + 1) level) (parseSettled (fuel' + 1) level') := by
  rw [parseSettled, parseSettled]
  infer_instance

theorem assignment_succ (lower : level' ≤ level) [Covers fuel (level + 1) fuel' (level' + 1)] (target : Expr)
    (targets : List Expr) : Below (parseAssignment (fuel + 1) level target targets)
      (parseAssignment (fuel' + 1) level' target targets) := by
  rw [parseAssignment, parseAssignment]
  have further : ∀ next, Below
      (enter level >>= fun level => parseAssignment fuel level next (target :: targets))
      (enter level' >>= fun level => parseAssignment fuel' level next (target :: targets)) :=
    fun next => entered lower inferInstance
  infer_instance

theorem label_succ (l : Nat) : Below (parseLabel (fuel + 1) level l) (parseLabel (fuel' + 1) level' l) := by
  rw [parseLabel, parseLabel]
  refine .andThen fun _ => .andThen fun s => .andThen fun _ => .andThen fun more => .andThen fun f => ?_
  dsimp only
  split
  · infer_instance
  · refine .andThen fun l => .andThen fun _ => ?_
    split
    · infer_instance
    · infer_instance

theorem noOps_succ : Below (parseNoOps (fuel + 1) level) (parseNoOps (fuel' + 1) level') := by
  rw [parseNoOps, parseNoOps]
  infer_instance

end Step

/-- With more fuel and fewer levels of nesting in use the same is read. -/
theorem of_le (more : fuel ≤ fuel') (lower : level' ≤ level) : Covers fuel level fuel' level' := by
  induction fuel generalizing fuel' level level' with
  | zero => exact zero
  | succ fuel ih =>
    obtain ⟨fuel', rfl⟩ : ∃ k, fuel' = k + 1 := Nat.exists_eq_add_one.2 (Nat.zero_lt_of_lt more)
    have more := Nat.le_of_succ_le_succ more
    have here : Covers fuel level fuel' level' := ih more lower
    have inside : Covers fuel (level + 1) fuel' (level' + 1) := ih more (Nat.succ_le_succ lower)
    exact ⟨operators_succ lower, operatorTail_succ, simple_succ, primary_succ, suffixed_succ, suffixes_succ,
      key_succ, arguments_succ, exprs_succ, table_succ, fields_succ, body_succ more, block_succ lower,
      return_succ, inner_succ, statement_succ more lower, if_succ, for_succ more, settled_succ,
      assignment_succ lower, label_succ, noOps_succ⟩

end Covers

end VaultConsole.Lua.Parser
