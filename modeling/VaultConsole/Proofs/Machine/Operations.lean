import VaultConsole.Lua.Machine.Step
import VaultConsole.Proofs.Machine.Calls

/-!
# What evaluation and statements do to the stacks

The expressions and statements of a running function only push frames (`Pushes`), a call may also move to
another coroutine (`Moves`), and a tail call gives up frames of the function that makes it (`Proceeds`). No
frame that marks the boundary of a function is given up on the way.
-/

namespace VaultConsole.Lua

/-- The frames of a running function are not pushed by errors. -/
theorem Frame.isPlain_of_not_isBoundary {f : Frame} (h : f.isBoundary = false) : f.isPlain := by
  cases f with
  | handled => cases h
  | closed => cases h
  | _ => rfl

namespace Machine

/-- A machine that goes on after frames of the running function were given up. -/
def Proceeds (m m' : Machine) : Prop :=
  ∃ given rest, m.stack = given ++ rest ∧ (∀ f ∈ given, f.isBoundary = false) ∧
    Moves { m with stack := rest } m'

theorem Moves.proceeds {m m' : Machine} (h : Moves m m') : Proceeds m m' :=
  ⟨[], m.stack, rfl, by simp, h⟩

theorem Pushes.proceeds {m m' : Machine} (h : Pushes m m') : Proceeds m m' := (Moves.pushes h).proceeds

/-- Frames of the running function that are pushed and given up again, or pushed and kept. -/
theorem Proceeds.under {m m' : Machine} {f : Frame} (plain : f.isBoundary = false)
    (h : Proceeds { m with stack := f :: m.stack } m') : Proceeds m m' := by
  obtain ⟨given, rest, split, inner, moves⟩ := h
  cases given with
  | nil =>
    have whole : rest = f :: m.stack := split.symm
    subst whole
    exact ((pushes_frame m (Frame.isPlain_of_not_isBoundary plain)).moves moves).proceeds
  | cons g given =>
    have tail : m.stack = given ++ rest := by
      have := congrArg List.tail split
      simpa using this
    exact ⟨given, rest, tail, fun f member => inner f (List.mem_cons_of_mem _ member), moves⟩

/-! ## Variables -/

theorem pushes_writeLocal (m : Machine) (v : LocalVar) (x : Value) : Pushes m (m.writeLocal v x) := by
  cases v with
  | slot i => exact .none (.refl _) rfl rfl rfl id
  | cell i => exact .none (m.heap.grows_setCell _ _) rfl rfl rfl id

theorem pushes_declareLocal (m : Machine) (v : LocalVar) (x : Value) :
    Pushes m (m.declareLocal v x) := by
  cases v with
  | slot i => exact pushes_writeLocal m (.slot i) x
  | cell i => exact .none (m.heap.grows_newCell _) rfl rfl rfl id

theorem pushes_declareLocals (m : Machine) (vs : List LocalVar) (xs : List Value) :
    Pushes m (m.declareLocals vs xs) := by
  induction vs generalizing m xs with
  | nil => exact .refl m
  | cons v vs ih => exact (pushes_declareLocal m v _).trans (ih _ _)

theorem pushes_writeCarried (m : Machine) (i : Nat) (x : Value) : Pushes m (m.writeCarried i x) := by
  unfold writeCarried
  simp only []
  split
  · exact .none (m.heap.grows_setCell _ _) rfl rfl rfl id
  · exact .none (.refl _) rfl rfl rfl id

theorem pushes_giveValue (m : Machine) (v : Value) : Pushes m (m.giveValue v) := pushes_focus m trivial

theorem pushes_evalUnder (m : Machine) {f : Frame} (plain : f.isPlain) (c : Code) :
    Pushes m (m.evalUnder f c) := (pushes_frame m plain).trans (pushes_focus _ trivial)

/-! ## Operations -/

theorem pushes_index (m : Machine) (object key : Value) (code : Code) (line : Nat) :
    Pushes m (m.index object key code line) := by
  unfold index
  split
  · simp only []
    split
    · exact pushes_giveValue m _
    · exact pushes_operate m _ _ _ _ _
  · exact pushes_operate m _ _ _ _ _

theorem pushes_assign (m : Machine) (t : Target) (v : Value) (line : Nat) :
    Pushes m (m.assign t v line) := by
  cases t with
  | «local» x => exact (pushes_writeLocal m x v).trans (pushes_focus _ trivial)
  | carried i => exact (pushes_writeCarried m i v).trans (pushes_focus _ trivial)
  | index o k code => exact pushes_operate m _ _ _ _ _

theorem pushes_unary (m : Machine) (op : UnaryOp) (v : Value) (code : Code) (line : Nat) :
    Pushes m (m.unary op v code line) := by
  cases op with
  | not => exact pushes_giveValue m _
  | neg =>
    simp only [unary]
    split
    · exact pushes_giveValue m _
    · exact pushes_operate m _ _ _ _ _
  | len => exact pushes_operate m _ _ _ _ _
  | bitNot => exact pushes_operate m _ _ _ _ _

theorem pushes_binary (m : Machine) (op : Operator) (a b : Value) (l r : Code) (line : Nat) :
    Pushes m (m.binary op a b l r line) := by
  have gives : ∀ v, Pushes m (m.giveValue v) := pushes_giveValue m
  unfold binary
  split
  · exact gives _
  · exact gives _
  · exact gives _
  · exact gives _
  · exact gives _
  · exact gives _
  · split
    · exact gives _
    · exact pushes_operate m _ _ _ _ _

theorem pushes_makeClosure (m : Machine) (p : Proto) : Pushes m (m.makeClosure p) := by
  unfold makeClosure
  simp only []
  split
  · exact .none (m.heap.grows_newClosure _) rfl rfl rfl fun _ => trivial
  · exact .none (m.heap.grows_newClosure _) rfl rfl rfl fun _ => trivial

/-! ## Expressions -/

theorem pushes_startCall (m : Machine) (callee : Code) (args : List Code) (line : Nat) (want : Want) :
    Pushes m (m.startCall callee args line want) := by
  unfold startCall
  split
  · exact .one (.call (m.readAtom callee) (.code callee) line want) rfl (.refl _) rfl rfl rfl
      fun _ => trivial
  · exact pushes_evalUnder m rfl callee

theorem pushes_fetchMethod (m : Machine) (object : Value) (code : Code) (name : ByteArray)
    (args : List Code) (nameLine line : Nat) (want : Want) :
    Pushes m (m.fetchMethod object code name args nameLine line want) :=
  (pushes_frame m (f := .methodCall object name args line want) rfl).trans (pushes_index _ _ _ _ _)

theorem pushes_startMethod (m : Machine) (object : Code) (name : ByteArray) (args : List Code)
    (nameLine line : Nat) (want : Want) :
    Pushes m (m.startMethod object name args nameLine line want) := by
  unfold startMethod
  split
  · exact pushes_fetchMethod m _ _ _ _ _ _ _
  · exact pushes_evalUnder m rfl object

theorem pushes_eval (m : Machine) (c : Code) : Pushes m (m.eval c) := by
  -- An operand that needs no evaluation is read at once; otherwise a frame waits for it.
  cases c with
  | const v => exact pushes_giveValue m v
  | «local» v name => exact pushes_giveValue m _
  | carried i name => exact pushes_giveValue m _
  | dots => exact pushes_giveValue m _
  | function p => exact pushes_makeClosure m p
  | index o k line =>
    simp only [eval]
    split
    · split
      · exact pushes_index m _ _ _ _
      · exact pushes_evalUnder m rfl k
    · exact pushes_evalUnder m rfl o
  | call f args line => exact pushes_startCall m _ _ _ _
  | method o name args nameLine line => exact pushes_startMethod m _ _ _ _ _ _
  | unary op e line =>
    simp only [eval]
    split
    · exact pushes_unary m _ _ _ _
    · exact pushes_evalUnder m rfl e
  | binary op l r line =>
    simp only [eval]
    split
    · split
      · exact pushes_binary m _ _ _ _ _ _
      · exact pushes_evalUnder m rfl r
    · exact pushes_evalUnder m rfl l
  | and l r => exact pushes_evalUnder m rfl l
  | or l r => exact pushes_evalUnder m rfl l
  | concat operands line =>
    exact .one (.concat operands line) rfl (.refl _) rfl rfl rfl fun _ => trivial
  | table fields items entries =>
    simp only [eval]
    split
    · exact .none (m.heap.grows_newTable (Table.lawful_withRoom _ _)) rfl rfl rfl fun _ => trivial
    · split
      · exact .none (m.heap.grows_newTable (Table.lawful_withRoom _ _)) rfl rfl rfl fun _ => trivial
      · exact .one _ rfl (m.heap.grows_newTable (Table.lawful_withRoom _ _)) rfl rfl rfl fun _ => trivial
  | paren e => exact pushes_focus m trivial

theorem pushes_evalAll (m : Machine) (c : Code) : Pushes m (m.evalAll c) := by
  unfold evalAll
  split
  · exact pushes_focus m trivial
  · exact pushes_startCall m _ _ _ _
  · exact pushes_startMethod m _ _ _ _ _ _
  · exact pushes_evalUnder m rfl c

theorem pushes_evalList (m : Machine) (done : List Value) (codes : List Code) :
    Pushes m (m.evalList done codes) := by
  unfold evalList
  split
  · exact pushes_focus m trivial
  · split
    · exact .one _ rfl (.refl _) rfl rfl rfl fun _ => trivial
    · exact pushes_evalUnder m rfl _
  · exact pushes_evalUnder m rfl _

/-! ## Table constructors -/

theorem grows_storeItems (h : Heap) (b : Building) (vs : List Value) :
    h.Grows (storeItems h b vs).1 := by
  unfold storeItems
  split
  · exact .refl h
  · exact { h.grows_modifyTable b.ref fun _ lawful => lawful.setItems b.stored vs with }

theorem pushes_finishTable (m : Machine) (b : Building) (vs : List Value) :
    Pushes m (m.finishTable b vs) := by
  unfold finishTable
  simp only []
  split
  · exact .none (grows_storeItems _ _ _) rfl rfl rfl fun _ => trivial
  · exact .none (grows_storeItems _ _ _) rfl rfl rfl fun _ => trivial

theorem pushes_buildTable (m : Machine) (b : Building) : Pushes m (m.buildTable b) := by
  unfold buildTable
  split
  · exact pushes_finishTable m b []
  · rename_i f rest _
    simp only []
    have stored : m.heap.Grows
        (if b.pending.length ≥ itemsAtOnce then storeItems m.heap b b.pending.reverse
        else (m.heap, b)).1 := by
      split
      · exact grows_storeItems _ _ _
      · exact .refl _
    cases f with
    | item c =>
      simp only []
      split
      · exact .one _ rfl stored rfl rfl rfl fun _ => trivial
      · exact .one _ rfl stored rfl rfl rfl fun _ => trivial
    | entry k c line => exact .one _ rfl stored rfl rfl rfl fun _ => trivial

theorem pushes_storeEntry (m : Machine) (b : Building) (key v : Value) (line : Nat) :
    Pushes m (m.storeEntry b key v line) :=
  (pushes_frame m (f := .tableRest b) rfl).trans (pushes_operate _ _ _ _ _ _)

/-! ## Statements -/

theorem pushes_evalTargets (m : Machine) (done : List Target) (values : List Code) (line : Nat)
    (targets : List Code) : Pushes m (m.evalTargets done values line targets) := by
  induction targets generalizing done with
  | nil =>
    unfold evalTargets
    split
    · exact pushes_evalUnder m rfl _
    · exact .one _ rfl (.refl _) rfl rfl rfl fun _ => trivial
  | cons target rest ih =>
    cases target with
    | «local» v name => exact ih _
    | carried i name => exact ih _
    | index o k line' =>
      simp only [evalTargets]
      split
      · split
        · exact ih _
        · exact pushes_evalUnder m rfl _
      · exact pushes_evalUnder m rfl _
    | _ => exact ih _

theorem pushes_storeAll (m : Machine) (pairs : List (Target × Value)) (line : Nat) :
    Pushes m (m.storeAll pairs line) := by
  unfold storeAll
  split
  · exact pushes_focus m trivial
  · exact pushes_assign m _ _ _
  · exact (pushes_frame m (f := .store _ line) rfl).trans (pushes_assign _ _ _ _)

theorem pushes_execStep (m : Machine) (s : Step) : Pushes m (m.execStep s) := by
  -- One case for each form of a statement, in the order of `execStep`.
  unfold execStep
  split
  · exact pushes_evalUnder m rfl _
  · exact .one _ rfl (.refl _) rfl rfl rfl fun _ => trivial
  · exact .one _ rfl (.refl _) rfl rfl rfl fun _ => trivial
  · exact pushes_evalTargets m _ _ _ _
  · exact pushes_startCall m _ _ _ _
  · exact pushes_startMethod m _ _ _ _ _ _
  · exact pushes_focus m trivial
  · exact pushes_focus m trivial
  · exact pushes_evalUnder m rfl _
  · exact .one _ rfl (.refl _) rfl rfl rfl fun _ => trivial
  · exact pushes_evalUnder m rfl _
  · exact pushes_evalUnder m rfl _
  · exact .one _ rfl (.refl _) rfl rfl rfl fun _ => trivial
  · exact .one _ rfl (.refl _) rfl rfl rfl fun _ => trivial
  · exact ((pushes_frame m (f := .assignOne _ 0) rfl).trans (pushes_declareLocal _ _ _)).trans
      (pushes_makeClosure _ _)
  · exact pushes_focus m trivial
  · exact .one _ rfl (.refl _) rfl rfl rfl fun _ => trivial
  · exact pushes_startCall m _ _ _ _
  · exact pushes_startMethod m _ _ _ _ _ _
  · exact pushes_focus m trivial
  · exact pushes_focus m trivial
  · exact pushes_focus m trivial
  · exact pushes_focus m trivial

theorem pushes_execNext (m : Machine) (all steps : List Step) : Pushes m (m.execNext all steps) := by
  unfold execNext
  split
  · exact pushes_focus m trivial
  · rename_i vars values i name line rest
    exact ((pushes_frame m (f := .block all []) rfl).trans
      (pushes_frame _ (f := .declareClosing vars i name line rest) rfl)).trans (pushes_focus _ trivial)
  · split
    · exact pushes_execStep m _
    · exact (pushes_frame m (f := .block all _) rfl).trans (pushes_execStep _ _)

theorem pushes_exec (m : Machine) (steps : List Step) : Pushes m (m.exec steps) :=
  pushes_execNext m _ steps

/-! ## Loops -/

theorem pushes_runNumeric (m : Machine) (var : LocalVar) (range : Range) (body : List Step) :
    Pushes m (m.runNumeric var range body) := by
  have begins : Pushes m { m with
      focus := .exec body, stack := .numericLoop var range body :: m.stack } :=
    .one _ rfl (.refl _) rfl rfl rfl fun _ => trivial
  exact begins.trans (pushes_declareLocal _ _ _)

theorem pushes_startNumeric (m : Machine) (var : LocalVar) (body : List Step) (line : Nat)
    (start limit step : Value) : Pushes m (m.startNumeric var body line start limit step) := by
  have fails : ∀ text, Pushes m (m.raiseText text) := pushes_raiseText m
  have ends : Pushes m { m with focus := .done } := pushes_focus m trivial
  have runs : ∀ range, Pushes m (m.runNumeric var range body) := fun range =>
    pushes_runNumeric m var range body
  unfold startNumeric
  split
  · split
    · exact fails _
    · split
      · exact fails _
      · split
        · exact ends
        · exact runs _
  · split
    · exact fails _
    · split
      · exact fails _
      · split
        · exact fails _
        · simp only []
          split
          · exact fails _
          · -- The comparison depends on the sign of the step.
            split
            · split
              · exact ends
              · exact runs _
            · split
              · exact ends
              · exact runs _

theorem pushes_nextNumeric (m : Machine) (var : LocalVar) (range : Range) (body : List Step) :
    Pushes m (m.nextNumeric var range body) := by
  unfold nextNumeric
  split
  · split
    · exact pushes_focus m trivial
    · exact pushes_runNumeric m _ _ _
  · simp only []
    split
    · split
      · exact pushes_runNumeric m _ _ _
      · exact pushes_focus m trivial
    · split
      · exact pushes_runNumeric m _ _ _
      · exact pushes_focus m trivial

/-! ## Calls from code -/

/-- The frames before the next boundary are given up. -/
theorem dropToBoundary_split (stack : List Frame) :
    ∃ given, stack = given ++ dropToBoundary stack ∧ ∀ f ∈ given, f.isBoundary = false := by
  induction stack with
  | nil => exact ⟨[], rfl, by simp⟩
  | cons f fs ih =>
    unfold dropToBoundary
    by_cases boundary : f.isBoundary = true
    · rw [if_pos boundary]
      exact ⟨[], rfl, by simp⟩
    · rw [if_neg boundary]
      obtain ⟨given, split, inner⟩ := ih
      refine ⟨f :: given, by rw [List.cons_append, ← split], ?_⟩
      intro g member
      obtain rfl | member := List.mem_cons.1 member
      · simpa using boundary
      · exact inner g member

theorem proceeds_call (host : Host) (m : Machine) (f : Value) (args : List Value) (line : Nat)
    (name : CallName) (want : Want) : Proceeds m (m.call host f args line name want) := by
  have enters : ∀ (m' : Machine), Pushes m m' →
      Proceeds m (enter host maxDepth { m' with act := default } f args) := by
    intro m' pushes
    have fresh : Pushes m' { m' with act := default } := .none (.refl _) rfl rfl rfl id
    exact ((pushes.trans fresh).moves (moves_enter host maxDepth _ f args)).proceeds
  unfold call
  split
  · -- Only here are frames given up: those of the function that is left by the call.
    obtain ⟨given, split, inner⟩ := dropToBoundary_split m.stack
    refine ⟨given, dropToBoundary m.stack, split, inner, .pushes ?_⟩
    have enters := pushes_enterClosure { m with
      stack := dropToBoundary m.stack, room := roomBelow (dropToBoundary m.stack) }
    exact ⟨(enters _ args).heap, (enters _ args).stack, (enters _ args).thread, (enters _ args).resumers,
      fun _ => goesOn_enterClosure _ _ _⟩
  · exact enters { m with stack := .caller m.act line name .all m.room :: .return :: m.stack }
      ((pushes_frame m (f := .return) rfl).trans (pushes_frame _ rfl))
  · exact enters { m with stack := .caller m.act line name want m.room :: m.stack } (pushes_frame m rfl)

theorem proceeds_iterate (host : Host) (m : Machine) (f state control : Value) (vars : List LocalVar)
    (body : List Step) (line : Nat) : Proceeds m (m.iterate host f state control vars body line) :=
  .under rfl (proceeds_call host _ f [state, control] line .iterator .all)

/-- The closing of a variable goes on above the frame that waits for its end. -/
theorem closeVariable_above (m : Machine) (v e : Value) (line : Nat) (after : AfterClose) :
    Pushes { m with stack := .closed m.act line after m.depth m.room :: m.stack }
      (m.closeVariable v e line after) := by
  have fresh : Pushes { m with stack := .closed m.act line after m.depth m.room :: m.stack }
      { m with stack := .closed m.act line after m.depth m.room :: m.stack, act := default } :=
    .none (.refl _) rfl rfl rfl id
  unfold closeVariable
  refine fresh.trans (pushes_nest fun depth => ?_)
  exact .none (.refl _) rfl rfl rfl fun _ => trivial

theorem pushes_closeVariable (m : Machine) (v e : Value) (line : Nat) {after : AfterClose}
    (plain : (Frame.closed m.act line after m.depth m.room).isPlain) :
    Pushes m (m.closeVariable v e line after) :=
  (pushes_frame m plain).trans (closeVariable_above m v e line after)

end Machine

end VaultConsole.Lua
