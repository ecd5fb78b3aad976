import VaultConsole.Lua.Chunk

/-!
# Code under another name

Every function of a chunk keeps the name of the chunk, for messages. `Proto.named` gives a function, and all
functions in it, another name and changes nothing else. Names are resolved without a look at the name of the
chunk (`Renames`), so a tree that is resolved under two names gives the same code but for the name
(`Proto.named_ofBlock`).
-/

namespace VaultConsole.Lua

mutual

/-- An expression with another name of the chunk. -/
def Code.named (n : ByteArray) : Code → Code
  | .const v => .const v
  | .dots => .dots
  | .local v s => .local v s
  | .carried i s => .carried i s
  | .function p => .function (p.named n)
  | .index o k l => .index (o.named n) (k.named n) l
  | .call f args l => .call (f.named n) (codesNamed n args) l
  | .method o s args m l => .method (o.named n) s (codesNamed n args) m l
  | .unary op e l => .unary op (e.named n) l
  | .binary op a b l => .binary op (a.named n) (b.named n) l
  | .and a b => .and (a.named n) (b.named n)
  | .or a b => .or (a.named n) (b.named n)
  | .concat es l => .concat (codesNamed n es) l
  | .table fs i e => .table (fieldsNamed n fs) i e
  | .paren e => .paren (e.named n)
termination_by structural c => c

/-- Several expressions with another name of the chunk. -/
def codesNamed (n : ByteArray) : List Code → List Code
  | [] => []
  | c :: cs => c.named n :: codesNamed n cs
termination_by structural c => c

/-- A field of a table constructor with another name of the chunk. -/
def CodeField.named (n : ByteArray) : CodeField → CodeField
  | .item c => .item (c.named n)
  | .entry k c l => .entry (k.named n) (c.named n) l
termination_by structural c => c

/-- The fields of a table constructor with another name of the chunk. -/
def fieldsNamed (n : ByteArray) : List CodeField → List CodeField
  | [] => []
  | f :: fs => f.named n :: fieldsNamed n fs
termination_by structural c => c

/-- A function with another name of its chunk. -/
def Proto.named (n : ByteArray) : Proto → Proto
  | .mk _ ps va s c cs b => .mk n ps va s c cs (stepsNamed n b)
termination_by structural p => p

/-- A statement with another name of the chunk. -/
def Step.named (n : ByteArray) : Step → Step
  | .locals vs es => .locals vs (codesNamed n es)
  | .closing vs es i s l => .closing vs (codesNamed n es) i s l
  | .assign ts es l => .assign (codesNamed n ts) (codesNamed n es) l
  | .call e => .call (e.named n)
  | .block b => .block (stepsNamed n b)
  | .loop c b => .loop (c.named n) (stepsNamed n b)
  | .repeat b => .repeat (stepsNamed n b)
  | .leaveIf c => .leaveIf (c.named n)
  | .branch c y e => .branch (c.named n) (stepsNamed n y) (stepsNamed n e)
  | .numericFor v a b c s p l => .numericFor v (a.named n) (b.named n) (c.named n) (stepsNamed n s) p l
  | .genericFor vs es s l => .genericFor vs (codesNamed n es) (stepsNamed n s) l
  | .localFunction v p => .localFunction v (p.named n)
  | .ret es l => .ret (codesNamed n es) l
  | .tailCall e => .tailCall (e.named n)
  | .leave => .leave
  | .goto l => .goto l
  | .label l => .label l
termination_by structural s => s

/-- Several statements with another name of the chunk. -/
def stepsNamed (n : ByteArray) : List Step → List Step
  | [] => []
  | s :: ss => s.named n :: stepsNamed n ss
termination_by structural c => c

end

variable {n : ByteArray}

theorem codesNamed_eq_map (cs : List Code) : codesNamed n cs = cs.map (·.named n) := by
  induction cs with
  | nil => rfl
  | cons c cs ih => rw [codesNamed, ih, List.map_cons]

theorem fieldsNamed_eq_map (fs : List CodeField) : fieldsNamed n fs = fs.map (·.named n) := by
  induction fs with
  | nil => rfl
  | cons f fs ih => rw [fieldsNamed, ih, List.map_cons]

theorem stepsNamed_eq_map (ss : List Step) : stepsNamed n ss = ss.map (·.named n) := by
  induction ss with
  | nil => rfl
  | cons s ss ih => rw [stepsNamed, ih, List.map_cons]

theorem Code.isMulti_named (c : Code) : (c.named n).isMulti = c.isMulti := by
  cases c with
  | _ => rfl

namespace Resolve

/-- Whether a resolver under another name of the chunk does the same, up to a function of its result. -/
def Renames {α β : Type} (n : ByteArray) (f : α → β) (r : Resolver α) (r' : Resolver β) : Prop :=
  ∀ s, r'.run { s with chunk := n } = (f (r.run s).1, { (r.run s).2 with chunk := n })

variable {α β γ δ : Type}

theorem Renames.pure {f : α → β} {a : α} {b : β} (same : f a = b) :
    Renames n f (pure a) (pure b) := fun s => by
  rw [← same]
  rfl

theorem Renames.bind {f : α → β} {g : γ → δ} {r : Resolver α} {r' : Resolver β} {k : α → Resolver γ}
    {k' : β → Resolver δ} (first : Renames n f r r') (rest : ∀ a, Renames n g (k a) (k' (f a))) :
    Renames n g (r >>= k) (r' >>= k') := by
  intro s
  have goes : (r' >>= k').run { s with chunk := n } =
      (k' (r'.run { s with chunk := n }).1).run (r'.run { s with chunk := n }).2 := rfl
  rw [goes, first s]
  exact rest (r.run s).1 (r.run s).2

/-! ## Scopes -/

theorem renames_context : Renames n id context context := fun _ => rfl

theorem renames_modifyContext (f : Context → Context) : Renames n id (modifyContext f) (modifyContext f) :=
  fun _ => rfl

theorem renames_lookup (name : ByteArray) : Renames n id (lookup name) (lookup name) := by
  rintro ⟨chunk, assigned, contexts⟩
  rfl

theorem renames_declareAs (assigned : Bool) (name : ByteArray) :
    Renames n id (declareAs assigned name) (declareAs assigned name) := by
  refine renames_context.bind fun c => ?_
  show Renames n id (if assigned && c.shared.contains name then _ else _) (if _ then _ else _)
  by_cases shared : (assigned && c.shared.contains name) = true
  · simp only [id, if_pos shared]
    exact (renames_modifyContext _).bind fun _ => .pure rfl
  · simp only [id, if_neg shared]
    exact (renames_modifyContext _).bind fun _ => .pure rfl

theorem renames_declare (name : ByteArray) : Renames n id (declare name) (declare name) :=
  fun s => renames_declareAs (s.assigned.contains name) name s

theorem renames_declareAll {ι : Type} (place : ι → ByteArray) (names : List ι) :
    Renames n id (names.mapM fun x => declare (place x)) (names.mapM fun x => declare (place x)) := by
  induction names with
  | nil => exact .pure rfl
  | cons x names ih =>
    rw [List.mapM_cons]
    exact (renames_declare _).bind fun v => ih.bind fun vs => .pure rfl

theorem Renames.inScope {f : α → β} {r : Resolver α} {r' : Resolver β} (inner : Renames n f r r') :
    Renames n f (inScope r) (inScope r') :=
  renames_context.bind fun _ => inner.bind fun _ => (renames_modifyContext _).bind fun _ => .pure rfl

/-! ## Trees -/

theorem renames_constant? (e : Expr) : Renames n id (constant? e) (constant? e) := by
  unfold constant?
  split
  case h_6 =>
    refine (renames_lookup _).bind fun found => ?_
    cases found with
    | _ => exact .pure rfl
  case h_5 =>
    split
    · exact .pure rfl
    · exact .pure rfl
  all_goals exact .pure rfl

theorem renames_nameCode (s : ByteArray) (line : Nat) :
    Renames n (Code.named n) (nameCode s line) (nameCode s line) := by
  refine (renames_lookup s).bind fun found => ?_
  cases found with
  | global =>
    refine (renames_lookup environmentName).bind fun globals => ?_
    cases globals with
    | _ => exact .pure rfl
  | _ => exact .pure rfl

theorem chain?_named (c : Code) :
    binaryCode.chain? (c.named n) = (binaryCode.chain? c).map fun x => (codesNamed n x.1, x.2) := by
  -- Only parentheses are looked into.
  fun_induction binaryCode.chain? c with
  | case1 operands line => rfl
  | case2 inner ih => exact ih
  | case3 c notChain notParen =>
    cases c with
    | concat operands line => exact absurd rfl (notChain operands line)
    | paren inner => exact absurd rfl (notParen inner)
    | _ => rfl

theorem binaryCode_named (op : BinaryOp) (a b : Code) (line : Nat) :
    binaryCode op (a.named n) (b.named n) line = (binaryCode op a b line).named n := by
  cases op with
  | concat =>
    simp only [binaryCode, chain?_named]
    cases binaryCode.chain? b with
    | none => rfl
    | some x => rfl
  | _ => rfl

/-- How many fields of each kind a table constructor has does not depend on the name of the chunk. -/
theorem tableCode_named (codes : List CodeField) :
    Code.table (fieldsNamed n codes) ((fieldsNamed n codes).countP fun
        | .item e => !e.isMulti
        | .entry .. => false)
      ((fieldsNamed n codes).countP fun
        | .item _ => false
        | .entry .. => true) =
    Code.table (fieldsNamed n codes) (codes.countP fun
        | .item e => !e.isMulti
        | .entry .. => false)
      (codes.countP fun
        | .item _ => false
        | .entry .. => true) := by
  simp only [fieldsNamed_eq_map, List.countP_map]
  congr 2
  · funext f
    cases f with
    | item e => exact congrArg (!·) e.isMulti_named
    | entry k e line => rfl
  · funext f
    cases f with
    | item e => rfl
    | entry k e line => rfl

/-- What a declaration becomes, with the constant that it may introduce and the code of its values. -/
def declaring (names : List (ByteArray × Attribute)) (line : Nat) (known : Option Value) (codes : List Code) :
    Resolver Step := do
  match known, names.getLast? with
  | some v, some (name, _) =>
    let vars ← names.dropLast.mapM fun n => declare n.1
    modifyContext fun c => { c with bindings := (name, .const v) :: c.bindings }
    return .locals vars codes.dropLast
  | _, _ =>
    let vars ← names.mapM fun n => declare n.1
    match names.findIdx? (·.2 == .close) with
    | some i =>
      modifyContext fun c => { c with closing := true }
      return .closing vars codes i ((names[i]?.map (·.1)).getD ByteArray.empty) line
    | none => return .locals vars codes

theorem renames_declaring (names : List (ByteArray × Attribute)) (line : Nat) (known : Option Value)
    (codes : List Code) :
    Renames n (Step.named n) (declaring names line known codes)
      (declaring names line known (codesNamed n codes)) := by
  -- Variables that are not known at once, or that are closed, are declared one after the other.
  have plain : Renames n (Step.named n)
      (do
        let vars ← names.mapM fun n => declare n.1
        match names.findIdx? (·.2 == .close) with
        | some i =>
          modifyContext fun c => { c with closing := true }
          return .closing vars codes i ((names[i]?.map (·.1)).getD ByteArray.empty) line
        | none => return .locals vars codes)
      (do
        let vars ← names.mapM fun n => declare n.1
        match names.findIdx? (·.2 == .close) with
        | some i =>
          modifyContext fun c => { c with closing := true }
          return .closing vars (codesNamed n codes) i ((names[i]?.map (·.1)).getD ByteArray.empty) line
        | none => return .locals vars (codesNamed n codes)) := by
    refine (renames_declareAll _ names).bind fun vars => ?_
    cases names.findIdx? (·.2 == .close) with
    | none => exact .pure rfl
    | some i => exact (renames_modifyContext _).bind fun _ => .pure rfl
  unfold declaring
  cases known with
  | none => exact plain
  | some v =>
    cases names.getLast? with
    | none => exact plain
    | some last =>
      refine (renames_declareAll _ names.dropLast).bind fun vars => (renames_modifyContext _).bind fun _ => .pure ?_
      simp only [Step.named, codesNamed_eq_map, List.map_dropLast]
      rfl

/-- What a return becomes: a call that takes the place of the running one, unless a variable is to be closed. -/
theorem renames_returning (closing : Bool) (codes : List Code) (line : Nat) :
    Renames n (Step.named n)
      (match codes with
        | [.call f args l] =>
          return if closing then Step.ret [.call f args l] line else .tailCall (.call f args l)
        | [.method o s args n l] =>
          return if closing then .ret [.method o s args n l] line else .tailCall (.method o s args n l)
        | codes => return .ret codes line)
      (match codesNamed n codes with
        | [.call f args l] =>
          return if closing then Step.ret [.call f args l] line else .tailCall (.call f args l)
        | [.method o s args n l] =>
          return if closing then .ret [.method o s args n l] line else .tailCall (.method o s args n l)
        | codes => return .ret codes line) := by
  -- Renaming keeps the form of the codes, and so the branch that is taken.
  cases codes with
  | nil => exact .pure rfl
  | cons c codes =>
    cases codes with
    | nil =>
      cases c with
      | call f args l => cases closing with
        | _ => exact .pure rfl
      | method o s args m l => cases closing with
        | _ => exact .pure rfl
      | _ => exact .pure rfl
    | cons d codes =>
      cases c with
      | _ => exact .pure rfl

mutual

theorem renames_exprCode : (e : Expr) → Renames n (Code.named n) (exprCode e) (exprCode e)
  | .nil | .bool _ | .number _ | .string _ | .dots => .pure rfl
  | .function f => (renames_functionCode f).bind fun _ => .pure rfl
  | .name s line => renames_nameCode s line
  | .index o k _ => (renames_exprCode o).bind fun _ => (renames_exprCode k).bind fun _ => .pure rfl
  | .call f args _ => (renames_exprCode f).bind fun _ => (renames_exprCodes args).bind fun _ => .pure rfl
  | .method o _ args _ _ => (renames_exprCode o).bind fun _ => (renames_exprCodes args).bind fun _ => .pure rfl
  | .unary _ e _ => (renames_exprCode e).bind fun _ => .pure rfl
  | .binary op a b line => (renames_exprCode a).bind fun a' => (renames_exprCode b).bind fun b' =>
    .pure (binaryCode_named op a' b' line).symm
  | .table fields => (renames_fieldCodes fields).bind fun codes => .pure (tableCode_named codes).symm
  | .paren e => (renames_exprCode e).bind fun _ => .pure rfl

theorem renames_exprCodes : (es : List Expr) → Renames n (codesNamed n) (exprCodes es) (exprCodes es)
  | [] => .pure rfl
  | e :: es => (renames_exprCode e).bind fun _ => (renames_exprCodes es).bind fun _ => .pure rfl

theorem renames_fieldCodes : (fs : List Field) → Renames n (fieldsNamed n) (fieldCodes fs) (fieldCodes fs)
  | [] => .pure rfl
  | .item e :: fs => (renames_exprCode e).bind fun _ => (renames_fieldCodes fs).bind fun _ => .pure rfl
  | .entry k e _ :: fs => (renames_exprCode k).bind fun _ => (renames_exprCode e).bind fun _ =>
    (renames_fieldCodes fs).bind fun _ => .pure rfl

theorem renames_functionCode : (f : FunctionBody) → Renames n (Proto.named n) (functionCode f) (functionCode f)
  | .mk params _ body _ =>
    Renames.bind (f := id) (fun _ => rfl) fun _ => (renames_declareAll id params).bind fun _ =>
      (renames_statCodes body).bind fun _ => renames_context.bind fun _ =>
        Renames.bind (f := id) (fun _ => rfl) fun _ =>
          Renames.bind (f := fun s => { s with chunk := n }) (fun _ => rfl) fun _ => .pure rfl

theorem renames_statCode : (s : Stat) → Renames n (Step.named n) (statCode s) (statCode s)
  | .locals names values line => by
    -- What is known of a constant depends on its expression, which no name is part of.
    have rest : ∀ known, Renames n (Step.named n) (exprCodes values >>= declaring names line known)
        (exprCodes values >>= declaring names line known) := fun known =>
      (renames_exprCodes values).bind fun codes => renames_declaring names line known codes
    rw [statCode]
    split
    · split
      · exact (renames_constant? _).bind rest
      · exact rest none
    · exact rest none
  | .assign targets values _ => (renames_exprCodes targets).bind fun _ => (renames_exprCodes values).bind fun _ =>
    .pure rfl
  | .call e => (renames_exprCode e).bind fun _ => .pure rfl
  | .block body => (renames_statCodes body).inScope.bind fun _ => .pure rfl
  | .loop c body => (renames_exprCode c).bind fun _ => (renames_statCodes body).inScope.bind fun _ => .pure rfl
  | .repeatUntil body c => Renames.inScope <| (renames_statCodes body).bind fun steps =>
    (renames_exprCode c).bind fun _ => .pure (by simp [Step.named, stepsNamed_eq_map])
  | .branch c yes no => (renames_exprCode c).bind fun _ => (renames_statCodes yes).inScope.bind fun _ =>
    (renames_statCodes no).inScope.bind fun _ => .pure rfl
  | .numericFor s a b none body _ _ => (renames_exprCode a).bind fun _ => (renames_exprCode b).bind fun _ =>
    Renames.inScope <| (renames_declare s).bind fun _ => (renames_statCodes body).bind fun _ => .pure rfl
  | .numericFor s a b (some step) body _ _ => (renames_exprCode a).bind fun _ => (renames_exprCode b).bind fun _ =>
    (renames_exprCode step).bind fun _ => Renames.inScope <| (renames_declare s).bind fun _ =>
      (renames_statCodes body).bind fun _ => .pure rfl
  | .genericFor names values body _ => (renames_exprCodes values).bind fun _ => Renames.inScope <|
    (renames_modifyContext _).bind fun _ => (renames_declareAll id names).bind fun _ =>
      (renames_statCodes body).bind fun _ => .pure rfl
  | .localFunction s f => by
    rw [statCode]
    split
    · exact (renames_declareAs true s).bind fun _ => (renames_functionCode f).bind fun _ => .pure rfl
    · exact (renames_declare s).bind fun _ => (renames_functionCode f).bind fun _ => .pure rfl
  | .ret values line => renames_context.bind fun c => (renames_exprCodes values).bind fun codes =>
    renames_returning c.closing codes line
  | .leave | .goto _ | .label _ => .pure rfl

theorem renames_statCodes : (ss : List Stat) → Renames n (stepsNamed n) (statCodes ss) (statCodes ss)
  | [] => .pure rfl
  | s :: ss => (renames_statCode s).bind fun _ => (renames_statCodes ss).bind fun _ => .pure rfl

end

end Resolve

/-- **Names of chunks.** A tree gives the same function under every name, but for the name. -/
theorem Proto.named_ofBlock (n chunk : ByteArray) (body : Block) :
    (Proto.ofBlock chunk body).named n = Proto.ofBlock n body := by
  let main : Resolve.Context := ⟨[], #[(.carried 0, environmentName)], body.mentioned, 0, 0, 0, 0, false⟩
  have same := Resolve.renames_statCodes (n := n) body ⟨chunk, statsAssigned [] body, [main]⟩
  have resolved : Proto.ofBlock n body =
      let r := (Resolve.statCodes body).run ⟨n, statsAssigned [] body, [main]⟩
      let c := r.2.contexts.headD default
      .mk n [] true c.maxSlots c.maxCells c.captures.toList r.1 := rfl
  rw [resolved, same]
  rfl

end VaultConsole.Lua
