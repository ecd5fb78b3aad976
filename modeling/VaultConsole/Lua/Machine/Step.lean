import VaultConsole.Lua.Machine.Calls

/-!
# Steps of a machine

What a machine does next: it evaluates an expression, carries out a statement, or hands a value, values or
the end of a statement to the frame on top of its stack.
-/

namespace VaultConsole.Lua

namespace Machine

/-! ## Variables -/

/-- The value of a local. -/
def readLocal (m : Machine) : LocalVar → Value
  | .slot i => m.act.slots.getD i .nil
  | .cell i => m.heap.cell (m.act.cells.getD i 0)

/-- The value of a variable that the running closure carries along. -/
def readCarried (m : Machine) (i : Nat) : Value :=
  match m.act.carried.getD i (.value .nil) with
  | .cell c => m.heap.cell c
  | .value v => v

/-- Assigns to a local. -/
def writeLocal (m : Machine) (v : LocalVar) (x : Value) : Machine :=
  match m with
  | ⟨focus, ⟨chunk, carried, slots, cells, varargs⟩, stack, heap, depth, room, thread, threads, resumers⟩ =>
    match v with
    | .slot i =>
      ⟨focus, ⟨chunk, carried, slots.setIfInBounds i x, cells, varargs⟩, stack, heap, depth, room, thread,
        threads, resumers⟩
    | .cell i =>
      let heap := heap.setCell (cells.getD i 0) x
      ⟨focus, ⟨chunk, carried, slots, cells, varargs⟩, stack, heap, depth, room, thread, threads, resumers⟩

/-- Declares a local: a cell is made anew. -/
def declareLocal (m : Machine) (v : LocalVar) (x : Value) : Machine :=
  match v with
  | .slot _ => m.writeLocal v x
  | .cell i =>
    match m with
    | ⟨focus, ⟨chunk, carried, slots, cells, varargs⟩, stack, heap, depth, room, thread, threads,
        resumers⟩ =>
      let (heap, c) := heap.newCell x
      ⟨focus, ⟨chunk, carried, slots, cells.setIfInBounds i c, varargs⟩, stack, heap, depth, room, thread,
        threads, resumers⟩

/-- Declares locals with the values that there are for them, and nil for the others. -/
def declareLocals (m : Machine) : List LocalVar → List Value → Machine
  | [], _ => m
  | v :: vs, xs => declareLocals (m.declareLocal v (xs.headD .nil)) vs xs.tail

/-- Assigns to a carried variable; one that is assigned to is in a cell. -/
def writeCarried (m : Machine) (i : Nat) (x : Value) : Machine :=
  match m with
  | ⟨focus, act, stack, heap, depth, room, thread, threads, resumers⟩ =>
    match act.carried.getD i (.value .nil) with
    | .cell c =>
      let heap := heap.setCell c x
      ⟨focus, act, stack, heap, depth, room, thread, threads, resumers⟩
    | .value _ => ⟨focus, act, stack, heap, depth, room, thread, threads, resumers⟩

/-- The value of an expression that only fetches one. -/
def readAtom (m : Machine) : Code → Value
  | .const v => v
  | .local v _ => m.readLocal v
  | .carried i _ => m.readCarried i
  | _ => .nil

/-- The value of an operand. -/
def readOperand (m : Machine) : Operand → Value
  | .value v => v
  | .local v => m.readLocal v
  | .carried i => m.readCarried i

/-- The operand that an atom is. -/
def operandOf (m : Machine) : Code → Operand
  -- Other operands may still change a local, which is read when the operation is carried out.
  | .local v _ => .local v
  | c => .value (m.readAtom c)

/-- The operand that an atom is where a table is accessed. -/
def objectOf (m : Machine) : Code → Operand
  | .local v _ => .local v
  | .carried i _ => .carried i
  | c => .value (m.readAtom c)

/-- A value for the frame on top. -/
def giveValue (m : Machine) (v : Value) : Machine := { m with focus := .value v }

/-- Pushes a frame and evaluates an expression for it. -/
def evalUnder (m : Machine) (f : Frame) (c : Code) : Machine :=
  { m with focus := .eval c, stack := f :: m.stack }

/-! ## Operations -/

/-- An action with one result. -/
def single (a : Action Value) : Action (List Value) := do return [← a]

/-- An action without a result. -/
def silent (a : Action Unit) : Action (List Value) := do
  a
  return []

/-- Accesses an object. -/
def index (m : Machine) (object key : Value) (code : Code) (line : Nat) : Machine :=
  match object with
  | .table r =>
    let v := m.heap.rawGet r key
    -- What is there, or absent without a metatable, needs no metamethod.
    if !v.isNil || ((m.heap.table r).metatable?).isNone then m.giveValue v
    else m.operate (single (Metamethod.index object key)) .index [code] line .one
  | _ => m.operate (single (Metamethod.index object key)) .index [code] line .one

/-- Assigns to a place. -/
def assign (m : Machine) (t : Target) (v : Value) (line : Nat) : Machine :=
  match t with
  | .local x => { m.writeLocal x v with focus := .done }
  | .carried i => { m.writeCarried i v with focus := .done }
  | .index o k code =>
    let object := m.readOperand o
    let key := m.readOperand k
    m.operate (silent (Metamethod.setIndex object key v)) .newindex [code] line .none

/-- Carries out an operator with one operand. -/
def unary (m : Machine) (op : UnaryOp) (v : Value) (code : Code) (line : Nat) : Machine :=
  match op with
  | .not => m.giveValue (.bool (!v.isTruthy))
  | .neg =>
    match v with
    | .int n => m.giveValue (.int (-n))
    | _ => m.operate (single (Metamethod.negate v)) .unm [code] line .one
  | .len => m.operate (single (Metamethod.length v)) .len [code] line .one
  | .bitNot => m.operate (single (Metamethod.complement v)) .bnot [code] line .one

/-- Carries out an operator with two operands. -/
def binary (m : Machine) (op : Operator) (a b : Value) (l r : Code) (line : Nat) : Machine :=
  match op, a, b with
  | .add, .int x, .int y => m.giveValue (.int (x + y))
  | .sub, .int x, .int y => m.giveValue (.int (x - y))
  | .lt, .int x, .int y => m.giveValue (.bool (x < y))
  | .le, .int x, .int y => m.giveValue (.bool (x ≤ y))
  | .gt, .int x, .int y => m.giveValue (.bool (x > y))
  | .eq, .int x, .int y => m.giveValue (.bool (x == y))
  | _, _, _ =>
    -- Numbers give a result by themselves; anything else may be up to a metamethod.
    match Arithmetic.apply op a b with
    | .value v => m.giveValue v
    | _ => m.operate (single (Metamethod.operate op a b)) (Event.ofOperator op) [l, r] line .one

/-- What a function that is made carries along. -/
def capture (act : Activation) : CaptureSource → Captured
  | .slot i => .value (act.slots.getD i .nil)
  | .cell i => .cell (act.cells.getD i 0)
  | .carried i => act.carried.getD i (.value .nil)

/-- Makes a function. -/
def makeClosure (m : Machine) (p : Proto) : Machine :=
  match m with
  | ⟨_, act, stack, heap, depth, room, thread, threads, resumers⟩ =>
    let carried := p.captures.foldl (fun carried c => carried.push (capture act c.1))
      (Array.emptyWithCapacity 4)
    let (heap, r) := heap.newClosure ⟨p, carried⟩
    -- What was made stays where it is, although memory has run out.
    if heap.isExhausted then
      ⟨.raise memoryError, act, stack, heap, depth, room, thread, threads, resumers⟩
    else ⟨.value (.closure r), act, stack, heap, depth, room, thread, threads, resumers⟩

/-! ## Expressions -/

/-- Begins a call: the function is evaluated, then the arguments. -/
def startCall (m : Machine) (callee : Code) (args : List Code) (line : Nat) (want : Want) : Machine :=
  if callee.isAtom then
    let f := m.readAtom callee
    { m with focus := .evalList [] args, stack := .call f (.code callee) line want :: m.stack }
  else m.evalUnder (.arguments callee args line want) callee

/-- Begins a method call whose object is known: the method is fetched, then the arguments are
evaluated. -/
def fetchMethod (m : Machine) (object : Value) (code : Code) (name : ByteArray) (args : List Code)
    (nameLine line : Nat) (want : Want) : Machine :=
  index { m with stack := .methodCall object name args line want :: m.stack } object (.string name) code
    nameLine

/-- Begins a method call. -/
def startMethod (m : Machine) (object : Code) (name : ByteArray) (args : List Code)
    (nameLine line : Nat) (want : Want) : Machine :=
  if object.isAtom then m.fetchMethod (m.readAtom object) object name args nameLine line want
  else m.evalUnder (.methodOf object name args nameLine line want) object

/-- Evaluates an expression for one value. -/
def eval (m : Machine) (c : Code) : Machine :=
  match c with
  | .const v => m.giveValue v
  | .local v _ =>
    let x := m.readLocal v
    m.giveValue x
  | .carried i _ =>
    let x := m.readCarried i
    m.giveValue x
  | .dots =>
    let x := m.act.varargs.headD .nil
    m.giveValue x
  | .function p => m.makeClosure p
  -- Of two parts that are no atoms, the first one is evaluated first, under a frame that waits for it.
  | .index o k line =>
    if o.isAtom then
      if k.isAtom then
        let object := m.readAtom o
        let key := m.readAtom k
        m.index object key o line
      else
        let object := m.objectOf o
        m.evalUnder (.indexAt object o line) k
    else m.evalUnder (.indexKey o k line) o
  | .call f args line => m.startCall f args line .one
  | .method o name args nameLine line => m.startMethod o name args nameLine line .one
  | .unary op e line =>
    if e.isAtom then
      let v := m.readAtom e
      m.unary op v e line
    else m.evalUnder (.unary op e line) e
  | .binary op l r line =>
    if l.isAtom then
      if r.isAtom then
        let a := m.readAtom l
        let b := m.readAtom r
        m.binary op a b l r line
      else
        let a := m.operandOf l
        m.evalUnder (.binary op a l r line) r
    else m.evalUnder (.binaryRight op l r line) l
  | .and l r => m.evalUnder (.andThen r) l
  | .or l r => m.evalUnder (.orElse r) l
  | .concat operands line =>
    { m with focus := .evalList [] operands, stack := .concat operands line :: m.stack }
  | .table fields items entries =>
    match m with
    | ⟨_, act, stack, heap, depth, room, thread, threads, resumers⟩ =>
      let (heap, r) := heap.newTable (Table.withRoom items entries)
      if heap.isExhausted then
        ⟨.raise memoryError, act, stack, heap, depth, room, thread, threads, resumers⟩
      -- Without fields there is nothing to wait for.
      else if fields.isEmpty then
        ⟨.value (.table r), act, stack, heap, depth, room, thread, threads, resumers⟩
      else
        ⟨.done, act, .tableRest ⟨r, 0, [], fields⟩ :: stack, heap, depth, room, thread, threads,
          resumers⟩
  | .paren e => { m with focus := .eval e }

/-- Evaluates an expression for all of its values. -/
def evalAll (m : Machine) (c : Code) : Machine :=
  match c with
  | .dots =>
    let vs := m.act.varargs
    { m with focus := .values vs }
  | .call f args line => m.startCall f args line .all
  | .method o name args nameLine line => m.startMethod o name args nameLine line .all
  -- Any other expression gives one value.
  | c => m.evalUnder (.more [] []) c

/-- The values of leading atoms, put before those known, and the expressions after them. The last
expression is left where it can give any number of values. -/
def takeAtoms (m : Machine) (done : List Value) : List Code → List Value × List Code
  | [] => (done, [])
  | c :: cs => if c.isAtom then takeAtoms m (m.readAtom c :: done) cs else (done, c :: cs)

/-- Evaluates expressions. -/
def evalList (m : Machine) (done : List Value) (codes : List Code) : Machine :=
  match m.takeAtoms done codes with
  | (done, []) => { m with focus := .values done.reverse }
  | (done, [c]) =>
    -- The last expression gives as many values as it has.
    if c.isMulti then { m with focus := .evalAll c, stack := .more done [] :: m.stack }
    else m.evalUnder (.more done []) c
  | (done, c :: cs) => m.evalUnder (.more done cs) c

/-! ## Table constructors -/

/-- The number of items that are put into a table at once. -/
def itemsAtOnce : Nat := 50

/-- Puts items into the table of a constructor. -/
def storeItems (h : Heap) (b : Building) (vs : List Value) : Heap × Building :=
  match vs with
  | [] => (h, b)
  | vs =>
    -- The array may have been made larger, which takes memory.
    let before := (h.table b.ref).cost
    let h := h.modifyTable b.ref fun t => t.setItems b.stored vs
    let after := (h.table b.ref).cost
    ({ h with used := h.used + (after - before) }, { b with stored := b.stored + vs.length, pending := [] })

/-- Ends a table constructor; the values come after the pending items. -/
def finishTable (m : Machine) (b : Building) (vs : List Value) : Machine :=
  match m with
  | ⟨_, act, stack, heap, depth, room, thread, threads, resumers⟩ =>
    let (heap, b) := storeItems heap b (b.pending.reverse ++ vs)
    if heap.isExhausted then
      ⟨.raise memoryError, act, stack, heap, depth, room, thread, threads, resumers⟩
    else ⟨.value (.table b.ref), act, stack, heap, depth, room, thread, threads, resumers⟩

/-- Goes on with the next field of a table constructor. -/
def buildTable (m : Machine) (b : Building) : Machine :=
  match b.rest with
  | [] => m.finishTable b []
  | f :: rest =>
    match m with
    | ⟨focus, act, stack, heap, depth, room, thread, threads, resumers⟩ =>
      let (heap, b) := if b.pending.length ≥ itemsAtOnce then storeItems heap b b.pending.reverse
        else (heap, b)
      let m : Machine := ⟨focus, act, stack, heap, depth, room, thread, threads, resumers⟩
      let b := { b with rest := rest }
      match f with
      | .item c =>
        -- An item at the end stands for as many items as it has values.
        if c.isMulti && rest.isEmpty then
          { m with focus := .evalAll c, stack := .tableRest b :: m.stack }
        else m.evalUnder (.tableItem b) c
      | .entry k c line => m.evalUnder (.tableKey b c line) k

/-- Puts an entry into the table of a constructor. -/
def storeEntry (m : Machine) (b : Building) (key v : Value) (line : Nat) : Machine :=
  -- The table of a constructor has no metatable, so that this puts the entry or fails.
  operate { m with stack := .tableRest b :: m.stack }
    (silent (Metamethod.setIndex (.table b.ref) key v)) .newindex [] line .none

/-! ## Statements -/

/-- Whether there is a label among the statements. -/
def hasLabel : List Step → Bool
  | [] => false
  | .label _ :: _ => true
  | _ :: steps => hasLabel steps

/-- The targets with the variables that an assignment is about to change read at once. -/
def fixTargets (m : Machine) (t : Target) (targets : List Target) : List Target :=
  let fixOperand (o : Operand) : Operand := match o, t with
    | .local v, .local x => if v = x then .value (m.readLocal v) else o
    | .carried i, .carried j => if i = j then .value (m.readCarried i) else o
    | o, _ => o
  targets.map fun
    | .index o k code => .index (fixOperand o) (fixOperand k) code
    | u => u

/-- Evaluates the operands of the targets of an assignment, and then its values. -/
def evalTargets (m : Machine) (done : List Target) (values : List Code) (line : Nat) : List Code → Machine
  | [] =>
    match done, values with
    -- One value for one target needs no lists.
    | [t], [c] => m.evalUnder (.assignOne t line) c
    | done, values => { m with focus := .evalList [] values, stack := .assign done line :: m.stack }
  -- Targets before this one read its variable before it is changed.
  | .local v _ :: rest =>
    evalTargets m (.local v :: m.fixTargets (.local v) done) values line rest
  | .carried i _ :: rest =>
    evalTargets m (.carried i :: m.fixTargets (.carried i) done) values line rest
  | .index o k _ :: rest =>
    if o.isAtom then
      if k.isAtom then
        evalTargets m (.index (m.objectOf o) (m.operandOf k) o :: done) values line rest
      else
        let object := m.objectOf o
        m.evalUnder (.targetAt object o done rest values line) k
    else m.evalUnder (.targetKey k o done rest values line) o
  | _ :: rest => evalTargets m done values line rest

/-- Pairs targets, latest first, with values; a target without a value gets nil. -/
def pairTargets (targets : List Target) (vs : List Value) : List (Target × Value) :=
  let rec go : List Target → List Value → List (Target × Value) → List (Target × Value)
    | [], _, pairs => pairs
    | t :: ts, vs, pairs => go ts vs.tail ((t, vs.headD .nil) :: pairs)
  go targets.reverse vs []

/-- Assigns values to targets, one after the other. -/
def storeAll (m : Machine) (pairs : List (Target × Value)) (line : Nat) : Machine :=
  match pairs with
  | [] => { m with focus := .done }
  | [(t, v)] => m.assign t v line
  | (t, v) :: rest => assign { m with stack := .store rest line :: m.stack } t v line

/-- Carries out a statement. -/
def execStep (m : Machine) (s : Step) : Machine :=
  match s with
  | .locals [v] [c] => m.evalUnder (.declareOne v) c
  | .locals vars values =>
    { m with focus := .evalList [] values, stack := .declare vars :: m.stack }
  -- only reached where nothing follows
  | .closing vars values i name line =>
    { m with focus := .evalList [] values, stack := .declareClosing vars i name line [] :: m.stack }
  | .assign targets values line => m.evalTargets [] values line targets
  | .call (.call f args line) => m.startCall f args line .none
  | .call (.method o name args nameLine line) => m.startMethod o name args nameLine line .none
  | .call _ => { m with focus := .done }
  | .block body => { m with focus := .exec body }
  | .loop c body => m.evalUnder (.loopTest c body) c
  | .repeat body => { m with focus := .exec body, stack := .repeatLoop body :: m.stack }
  | .leaveIf c => m.evalUnder .leaveTest c
  | .branch c yes no => m.evalUnder (.branch yes no) c
  | .numericFor v a b c body prepareLine line =>
    -- What fails is told with the line on which the loop is prepared.
    let _ := line
    { m with focus := .evalList [] [a, b, c], stack := .startNumeric v body prepareLine line :: m.stack }
  | .genericFor vars values body line =>
    { m with focus := .evalList [] values, stack := .startGeneric vars body line :: m.stack }
  | .localFunction v p =>
    -- The variable is there before the function is made, which can call itself.
    makeClosure (declareLocal { m with stack := .assignOne (.local v) 0 :: m.stack } v .nil) p
  | .ret [] _ => { m with focus := .return [] }
  | .ret values _ => { m with focus := .evalList [] values, stack := .return :: m.stack }
  | .tailCall (.call f args line) => m.startCall f args line .tail
  | .tailCall (.method o name args nameLine line) => m.startMethod o name args nameLine line .tail
  | .tailCall _ => { m with focus := .return [] }
  | .leave => { m with focus := .leave }
  | .goto l => { m with focus := .goto l }
  | .label _ => { m with focus := .done }

/-- Carries out the next of several statements; `all` are those among which labels are looked for. -/
def execNext (m : Machine) (all : List Step) : List Step → Machine
  | [] => { m with focus := .done }
  -- What follows is the scope of the variable, after which it is closed.
  | .closing vars values i name line :: rest =>
    { m with
      focus := .evalList [] values
      stack := .declareClosing vars i name line rest :: .block all [] :: m.stack }
  | s :: rest =>
    -- A last statement leaves no frame, unless a label may lead back here.
    if rest.isEmpty && all.isEmpty then m.execStep s
    else execStep { m with stack := .block all rest :: m.stack } s

/-- Carries out statements. -/
def exec (m : Machine) (steps : List Step) : Machine :=
  m.execNext (if hasLabel steps then steps else []) steps

/-! ## Loops -/

/-- The failure of a value of a numeric loop that is no number. -/
def failLoopValue (m : Machine) (what : String) (v : Value) (line : Nat) : Machine :=
  m.raiseText (placeText m.act.chunk line
    ++ s!"bad 'for' {what} (number expected, got ".toUTF8 ++ m.heap.typeName v ++ ")".toUTF8)

/-- How often a step can be added on the way from a number to a limit. -/
def loopCount (start limit step : Int64) : UInt64 :=
  if step > 0 then (limit.toUInt64 - start.toUInt64) / step.toUInt64
  -- The step is negated with care: the least integer has no negative.
  else (start.toUInt64 - limit.toUInt64) / ((-(step + 1)).toUInt64 + 1)

/-- The limit of a loop over integers; nothing if the loop does not run. -/
def loopLimit (start step : Int64) (limit : Number) : Option Int64 :=
  let found : Option Int64 := match limit with
    | .int n => some n
    | .float b =>
      if Real.isNaN b then none
      else
        -- A limit beyond the integers is the last of these, or is never reached.
        match if step < 0 then Real.ceilInt? b else Real.floorInt? b with
        | some n => some n
        | none =>
          if Real.lt 0 b then if step < 0 then none else some Int64.maxValue
          else if step > 0 then none else some Int64.minValue
  found.filter fun n => if step > 0 then start ≤ n else n ≤ start

/-- Runs the body of a numeric loop for a number. -/
def runNumeric (m : Machine) (var : LocalVar) (range : Range) (body : List Step) : Machine :=
  let v : Value := match range with
    | .ints i _ _ => .int i
    | .floats x _ _ => .float x
  declareLocal { m with focus := .exec body, stack := .numericLoop var range body :: m.stack } var v

/-- Begins a numeric loop. -/
def startNumeric (m : Machine) (var : LocalVar) (body : List Step) (line : Nat) (start limit step : Value) :
    Machine :=
  match start, step with
  | .int i, .int s =>
    if s == 0 then m.raiseText (placeText m.act.chunk line ++ "'for' step is zero".toUTF8)
    else
      -- With a start and a step that are integers the loop is over integers, whatever the limit.
      match limit.toNumber? with
      | none => m.failLoopValue "limit" limit line
      | some l =>
        match loopLimit i s l with
        | none => { m with focus := .done }
        | some l => m.runNumeric var (.ints i s (loopCount i l s)) body
  | _, _ =>
    -- The values are looked at in this order: the limit, the step, the start.
    match limit.toNumber? with
    | none => m.failLoopValue "limit" limit line
    | some l =>
      match step.toNumber? with
      | none => m.failLoopValue "step" step line
      | some s =>
        match start.toNumber? with
        | none => m.failLoopValue "initial value" start line
        | some i =>
          let s := s.toFloat
          let l := l.toFloat
          let i := i.toFloat
          if Real.eq s 0 then m.raiseText (placeText m.act.chunk line ++ "'for' step is zero".toUTF8)
          else if (if Real.lt 0 s then Real.lt l i else Real.lt i l) then { m with focus := .done }
          else m.runNumeric var (.floats i l s) body

/-- Goes on with the next number of a loop. -/
def nextNumeric (m : Machine) (var : LocalVar) (range : Range) (body : List Step) : Machine :=
  match range with
  | .ints i step left =>
    -- The steps were counted before the loop, so that no sum overflows.
    if left == 0 then { m with focus := .done }
    else m.runNumeric var (.ints (i + step) step (left - 1)) body
  | .floats x limit step =>
    let x := Real.add x step
    if (if Real.lt 0 step then Real.le x limit else Real.le limit x) then
      m.runNumeric var (.floats x limit step) body
    else { m with focus := .done }

/-- Asks the function of a generic loop for the next values. -/
def iterate (host : Host) (m : Machine) (f state control : Value) (vars : List LocalVar) (body : List Step)
    (line : Nat) : Machine :=
  call host { m with stack := .iterate f state vars body line :: m.stack } f [state, control] line
    .iterator .all

/-- Whether a value can be closed. -/
def isClosable (m : Machine) (v : Value) : Bool := !v.isTruthy || !(m.heap.metamethod v .close).isNil

/-- The failure of a variable that cannot be closed. -/
def failClosing (m : Machine) (name : ByteArray) (line : Nat) : Machine :=
  m.raiseText (placeText m.act.chunk line ++ "variable '".toUTF8 ++ name
    ++ "' got a non-closable value".toUTF8)

/-! ## Handing on -/

/-- Hands a value to a frame, which was on top of the stack. -/
def onValue (m : Machine) (v : Value) (f : Frame) : Machine :=
  match f with
  | .indexKey o k line =>
    if k.isAtom then
      let key := m.readAtom k
      m.index v key o line
    else m.evalUnder (.indexAt (.value v) o line) k
  | .indexAt object o line =>
    let object := m.readOperand object
    m.index object v o line
  | .unary op e line => m.unary op v e line
  | .binaryRight op l r line =>
    if r.isAtom then
      let b := m.readAtom r
      m.binary op v b l r line
    else m.evalUnder (.binary op (.value v) l r line) r
  | .binary op a l r line =>
    let a := m.readOperand a
    m.binary op a v l r line
  | .andThen r => if v.isTruthy then { m with focus := .eval r } else m.giveValue v
  | .orElse r => if v.isTruthy then m.giveValue v else { m with focus := .eval r }
  | .arguments callee args line want =>
    { m with focus := .evalList [] args, stack := .call v (.code callee) line want :: m.stack }
  | .methodOf object name args nameLine line want =>
    m.fetchMethod v object name args nameLine line want
  | .methodCall object name args line want =>
    { m with focus := .evalList [object] args, stack := .call v (.method name) line want :: m.stack }
  | .more done rest => { m with focus := .evalList (v :: done) rest }
  | .tableItem b => m.buildTable { b with pending := v :: b.pending }
  | .tableKey b c line => m.evalUnder (.tableEntry b v line) c
  | .tableEntry b key line => m.storeEntry b key v line
  | .branch yes no => { m with focus := .exec (if v.isTruthy then yes else no) }
  | .loopTest c body =>
    if v.isTruthy then { m with focus := .exec body, stack := .loop c body :: m.stack }
    else { m with focus := .done }
  | .leaveTest => { m with focus := if v.isTruthy then .leave else .done }
  -- An object that had to be evaluated is a value from here on.
  | .targetKey k o done rest values line =>
    if k.isAtom then
      let key := m.operandOf k
      m.evalTargets (.index (.value v) key o :: done) values line rest
    else m.evalUnder (.targetAt (.value v) o done rest values line) k
  | .targetAt object o done rest values line =>
    m.evalTargets (.index object (.value v) o :: done) values line rest
  | .assignOne t line => m.assign t v line
  | .declareOne x => { m.declareLocal x v with focus := .done }
  -- All other frames take any number of values.
  | f => { m with focus := .values [v], stack := f :: m.stack }

/-- Hands values to a frame, which was on top of the stack. -/
def onValues (host : Host) (m : Machine) (vs : List Value) (f : Frame) : Machine :=
  match f with
  | .more done _ => { m with focus := .values (done.reverse ++ vs) }
  | .call g name line want => m.call host g vs line name want
  | .concat operands line =>
    m.operate (single (Metamethod.concat vs)) .concat operands line .one
  | .tableRest b => m.finishTable b vs
  | .return => { m with focus := .return vs }
  | .declare vars => { m.declareLocals vars vs with focus := .done }
  | .declareClosing vars i name line rest =>
    let m := m.declareLocals vars vs
    let v := vs.getD i .nil
    -- A variable is looked at before its scope begins: false and nil need no closing.
    if !m.isClosable v then m.failClosing name line
    else if v.isTruthy then { m with focus := .exec rest, stack := .closing v line :: m.stack }
    else { m with focus := .exec rest }
  | .assign targets line => m.storeAll (pairTargets targets vs) line
  | .startNumeric var body prepareLine _ =>
    m.startNumeric var body prepareLine (vs.getD 0 .nil) (vs.getD 1 .nil) (vs.getD 2 .nil)
  | .startGeneric vars body line =>
    -- The fourth value of a loop is closed when the loop is left.
    let c := vs.getD 3 .nil
    if !m.isClosable c then m.failClosing "(for state)".toUTF8 line
    else
      let stack := if c.isTruthy then .closing c line :: m.stack else m.stack
      iterate host { m with stack := stack } (vs.getD 0 .nil) (vs.getD 1 .nil) (vs.getD 2 .nil) vars body
        line
  | .iterate g state vars body line =>
    match vs.headD .nil with
    -- The loop ends when the first value is nil.
    | .nil => { m with focus := .done }
    | control =>
      declareLocals { m with
        focus := .exec body, stack := .genericLoop g state control vars body line :: m.stack } vars vs
  | f => { m with focus := .value (vs.headD .nil), stack := f :: m.stack }

/-- Tells a frame, which was on top of the stack, that its statement has ended. -/
def onDone (host : Host) (m : Machine) (f : Frame) : Machine :=
  match f with
  | .block all rest => m.execNext all rest
  | .loop c body => m.evalUnder (.loopTest c body) c
  | .repeatLoop body => { m with focus := .exec body, stack := .repeatLoop body :: m.stack }
  | .numericLoop var range body => m.nextNumeric var range body
  | .genericLoop g state control vars body line => m.iterate host g state control vars body line
  | .store pairs line => m.storeAll pairs line
  | .closing v line => m.closeVariable v .nil line .done
  | .tableRest b => m.buildTable b
  | f =>
    -- A body that has ended without a return gives nothing.
    if f.isBoundary then { m with focus := .give [], stack := f :: m.stack }
    else { m with focus := .values [], stack := f :: m.stack }

/-! ## One step -/

/-- One step of a machine. A machine that has ended stays as it is, and so does one that waits for what does not
come back. -/
def step (host : Host) (m : Machine) : Machine :=
  match m with
  | ⟨focus, act, stack, heap, depth, room, thread, threads, resumers⟩ =>
    match focus with
    | .value v =>
      match stack with
      | f :: stack => onValue ⟨.done, act, stack, heap, depth, room, thread, threads, resumers⟩ v f
      | [] => ⟨.give [v], act, [], heap, depth, room, thread, threads, resumers⟩
    | .values vs =>
      match stack with
      | f :: stack => onValues host ⟨.done, act, stack, heap, depth, room, thread, threads, resumers⟩ vs f
      | [] => ⟨.give vs, act, [], heap, depth, room, thread, threads, resumers⟩
    | .done =>
      match stack with
      | f :: stack => onDone host ⟨.done, act, stack, heap, depth, room, thread, threads, resumers⟩ f
      | [] => ⟨.give [], act, [], heap, depth, room, thread, threads, resumers⟩
    | .eval c => eval ⟨.done, act, stack, heap, depth, room, thread, threads, resumers⟩ c
    | .evalAll c => evalAll ⟨.done, act, stack, heap, depth, room, thread, threads, resumers⟩ c
    | .evalList done codes =>
      evalList ⟨.done, act, stack, heap, depth, room, thread, threads, resumers⟩ done codes
    | .exec steps => exec ⟨.done, act, stack, heap, depth, room, thread, threads, resumers⟩ steps
    | .give vs => give host ⟨.done, act, stack, heap, depth, room, thread, threads, resumers⟩ vs
    | .call f args line name want =>
      call host ⟨.done, act, stack, heap, depth, room, thread, threads, resumers⟩ f args line name want
    | .enter f args =>
      enter host maxDepth ⟨.done, act, stack, heap, depth, room, thread, threads, resumers⟩ f args
    -- Frames are taken off one by one, so that the stack is handed over apart.
    | .return vs => returnFrom ⟨.done, act, [], heap, depth, room, thread, threads, resumers⟩ vs stack
    | .leave => leaveLoop ⟨.done, act, [], heap, depth, room, thread, threads, resumers⟩ stack
    | .goto l => goTo ⟨.done, act, [], heap, depth, room, thread, threads, resumers⟩ l stack
    | .raise e => handle ⟨.done, act, stack, heap, depth, room, thread, threads, resumers⟩ e
    | .unwind e => unwind host ⟨.done, act, stack, heap, depth, room, thread, threads, resumers⟩ e
    | .finished vs => ⟨.finished vs, act, stack, heap, depth, room, thread, threads, resumers⟩
    | .failed e => ⟨.failed e, act, stack, heap, depth, room, thread, threads, resumers⟩
    | .gone => ⟨.gone, act, stack, heap, depth, room, thread, threads, resumers⟩

/-- Whether a machine has come to results or to an error. -/
def hasEnded (m : Machine) : Bool :=
  match m.focus with
  | .finished _ | .failed _ => true
  | _ => false

/-- Whether a machine does nothing any more: it has ended, or waits for what does not come back. -/
def hasStopped (m : Machine) : Bool :=
  match m.focus with
  | .finished _ | .failed _ | .gone => true
  | _ => false

/-- Steps of a machine until it does nothing any more, at most as many as the fuel. -/
def run (host : Host) : Nat → Machine → Machine
  | 0, m => m
  | fuel + 1, m => if m.hasStopped then m else run host fuel (m.step host)

end Machine

end VaultConsole.Lua
