import VaultConsole.Lua.Library.Dispatch
import VaultConsole.Lua.Library.Loading
import VaultConsole.Lua.Machine.State

/-!
# Calls, errors and coroutines

How a machine enters a function and gives its results back, how an error goes on to where it is caught,
and how coroutines take turns.
-/

namespace VaultConsole.Lua

/-- The host of a session, and the platform that both are on. What the host knows may have been changed by the
calls to the platform that were made before, latest first. -/
structure Host where
  answer : List PlatformCall → Query → Reply
  /-- Whether reading a document has to wait. -/
  waits : List PlatformCall → Bool
  /-- What the host notes before it answers. -/
  notes : List PlatformCall → Query → List String
  platform : Platform

/-- Whether a query has to wait: only reading a document does, and what is not found is not read. -/
def Host.hasToWait (host : Host) (calls : List PlatformCall) : Query → Bool
  | .document query =>
    host.waits calls && match host.answer calls (.document query) with
      | .failed (.documentNotFound _) => false
      | _ => true
  | _ => false

namespace Machine

/-- The nesting at which calls are refused, and the one at which errors are no longer handled. -/
def maxDepth : Nat := 200

def maxErrorDepth : Nat := 220

/-- The number of places that running functions can take. -/
def maxRoom : Nat := 1000000

/-- Raises an error. -/
def raise (m : Machine) (e : Value) : Machine := { m with focus := .raise e }

/-- Raises an error with a text. -/
def raiseText (m : Machine) (text : ByteArray) : Machine := { m with focus := .raise (.string text) }

/-- Hands results on. -/
def deliver (m : Machine) (want : Want) (vs : List Value) : Machine :=
  match want with
  | .one => { m with focus := .value (vs.headD .nil) }
  | .all => { m with focus := .values vs }
  | .none => { m with focus := .done }
  | .tail => { m with focus := .return vs }

/-- The number of further places for functions that handle errors. -/
def errorRoom : Nat := 200

/-- Whether an error is being handled. -/
def isHandling (stack : List Frame) : Bool := stack.any fun
  | .handled .. => true
  | _ => false

/-! ## Faults -/

/-- The error that a fault of an operation on a line is. -/
def operationError (chunk : ByteArray) (line : Nat) (operands : List Code) : Fault → Value
  | .value v => v
  | .memory => memoryError
  | f => .string (placeText chunk line ++ f.text fun n => (operands[n]?).bind Code.naming?)

/-- The error that a fault of a library function is. -/
def nativeError (h : Heap) (stack : List Frame) (g : Value) : Fault → Value
  | .value v => v
  | .memory => memoryError
  | .located message => .string (levelText 1 stack ++ message)
  | .argument n message => .string (levelText 1 stack ++ argumentText h stack g n message)
  | f => .string (f.text fun _ => none)

/-- Counts a nested call. Where the nesting is too deep an error is raised instead, in the place that is
given. -/
def nest (m : Machine) (place : ByteArray) (go : Machine → Machine) : Machine :=
  let depth := m.depth + 1
  -- Beyond the limit there is room for handling the error, until that nests too deeply as well.
  if depth == maxDepth then raiseText { m with depth := depth } (place ++ "C stack overflow".toUTF8)
  else if depth ≥ maxErrorDepth then
    { m with focus := .unwind (.text "error in error handling") }
  else go { m with depth := depth }

/-! ## Operations and library functions -/

/-- Goes on with an operation of the running function. -/
def continueOperation {h : Heap} (m : Machine) (a : Act (List Value)) (grows : a.Grows h) (event : Event)
    (operands : List Code) (line : Nat) (want : Want) : Machine :=
  match m with
  | ⟨focus, act, stack, _, depth, room, thread, threads, resumers⟩ =>
    match a with
    | .done vs heap => deliver ⟨focus, act, stack, heap, depth, room, thread, threads, resumers⟩ want vs
    | .fail f heap =>
      ⟨.raise (operationError act.chunk line operands f), act, stack, heap, depth, room, thread, threads,
        resumers⟩
    | .call f args heap next =>
      let place := placeText act.chunk line
      nest ⟨focus, act, stack, heap, depth, room, thread, threads, resumers⟩ place fun m =>
        { m with
          focus := .enter f args
          stack := .operation m.act (fun vs => ⟨next vs, grows.after_call vs⟩) event operands line want depth
            room :: m.stack
          act := default }
    -- No operation asks the host or the platform.
    | .ask _ heap _ | .platform _ heap _ => ⟨.done, act, stack, heap, depth, room, thread, threads, resumers⟩

/-- Carries out an operation of the running function. -/
def operate (m : Machine) (action : Action (List Value)) (event : Event) (operands : List Code)
    (line : Nat) (want : Want) : Machine :=
  match m with
  | ⟨focus, act, stack, heap, depth, room, thread, threads, resumers⟩ =>
    continueOperation ⟨focus, act, stack, default, depth, room, thread, threads, resumers⟩
      (action.run heap) (action.grows heap) event operands line want

/-- Goes on with a library function, whose boundary is below it. -/
def continueNative (host : Host) (g : Value) (m : Machine) :
    {h : Heap} → (a : Act (List Value)) → a.Grows h → Machine
  | _, .done vs heap, _ => { m with focus := .give vs, heap := heap }
  | _, .fail f heap, _ =>
    let e := nativeError heap m.stack g f
    { m with focus := .raise e, heap := heap }
  | _, .call f args heap next, grows =>
    let depth := m.depth
    let room := m.room
    nest { m with heap := heap } ByteArray.empty fun m =>
      { m with
        focus := .enter f args
        stack := .native g (fun vs => ⟨next vs, grows.after_call vs⟩) depth room :: m.stack }
  | _, .ask q heap next, grows =>
    let calls := heap.calls
    let heap := heap.note (host.notes calls q)
    -- Waiting suspends the coroutine, which a library function that calls cannot be in the way of.
    if host.hasToWait calls q && !isYieldable m.stack then
      { m with
        focus := .raise (.text "attempt to yield across a C-call boundary"), heap := heap }
    else continueNative host g m (next (host.answer calls q) heap) (grows.after_ask _ _)
  | _, .platform c heap next, grows =>
    let calls := heap.calls
    let heap := heap.record c
    match host.platform.answer calls c with
    | some a => continueNative host g m (next a heap) (grows.after_platform _ _)
    | none => { m with focus := .gone, heap := heap }

/-- Carries out a library function. -/
def runNative (host : Host) (m : Machine) (g : Value) (action : Action (List Value)) : Machine :=
  match m with
  | ⟨focus, act, stack, heap, depth, room, thread, threads, resumers⟩ =>
    continueNative host g ⟨focus, act, stack, default, depth, room, thread, threads, resumers⟩
      (action.run heap) (action.grows heap)

/-! ## Entering functions -/

/-- Puts arguments into the places of parameters. -/
def bindParams : List LocalVar → List Value → Heap → Array Value → Array Nat →
    Heap × Array Value × Array Nat × List Value
  | [], args, h, slots, cells => (h, slots, cells, args)
  | p :: ps, args, h, slots, cells =>
    let v := args.headD .nil
    match p with
    | .slot i => bindParams ps args.tail h (slots.setIfInBounds i v) cells
    | .cell i =>
      let (h, c) := h.newCell v
      bindParams ps args.tail h slots (cells.setIfInBounds i c)

/-- Enters a function of the language. -/
def enterClosure (m : Machine) (r : Nat) (args : List Value) : Machine :=
  match m with
  | ⟨_, act, stack, heap, depth, room, thread, threads, resumers⟩ =>
    let c := heap.closures.getD r default
    let p := c.proto
    -- The running functions together take so many places; while an error is handled there are more.
    let room := room + p.slots + p.cells + 4
    if room > maxRoom && !(room ≤ maxRoom + errorRoom && isHandling stack) then
      let focus : Focus := if isHandling stack then .unwind (.text "error in error handling")
        else .raise (.string (levelText 1 stack ++ "stack overflow".toUTF8))
      ⟨focus, act, stack, heap, depth, room, thread, threads, resumers⟩
    else if heap.exceeds (16 * room) then
      ⟨.raise memoryError, act, stack, heap, depth, room, thread, threads, resumers⟩
    else
      let (heap, slots, cells, varargs) := bindParams p.params args heap (Array.replicate p.slots .nil)
        (Array.replicate p.cells 0)
      ⟨.exec p.body, ⟨p.chunk, c.carried, slots, cells, if p.isVararg then varargs else []⟩, stack, heap,
        depth, room, thread, threads, resumers⟩

/-- Saves the state of the running coroutine for the time that another one runs. -/
def resumer (m : Machine) (isWrap : Bool) : Resumer := ⟨m.thread, m.stack, m.depth, m.room, isWrap⟩

/-- Resumes a coroutine. -/
def resume (m : Machine) (t : Nat) (args : List Value) (isWrap : Bool) : Machine :=
  let refuse (m : Machine) (message : String) : Machine :=
    if isWrap then m.raiseText (levelText 1 m.stack ++ message.toUTF8)
    else { m with focus := .give [.bool false, .text message] }
  match m.threads.getD t .dead with
  | .dead | .failed .. => refuse m "cannot resume dead coroutine"
  | .active => refuse m "cannot resume non-suspended coroutine"
  -- A coroutine runs on a stack of its own, and counts as one more call.
  | .fresh f =>
    if m.depth ≥ maxDepth then refuse m "C stack overflow"
    else
      { m with
        focus := .enter f args, stack := [], depth := m.depth + 1, thread := t
        threads := m.threads.setIfInBounds t .active, resumers := m.resumer isWrap :: m.resumers }
  | .suspended stack =>
    if m.depth ≥ maxDepth then refuse m "C stack overflow"
    else
      { m with
        focus := .give args, stack := stack, depth := m.depth + 1, thread := t
        threads := m.threads.setIfInBounds t .active, resumers := m.resumer isWrap :: m.resumers }

/-- Goes back to the coroutine that resumed the running one. -/
def goBack (m : Machine) (r : Resumer) (resumers : List Resumer) (state : ThreadState) (focus : Focus) :
    Machine :=
  { m with
    focus := focus, stack := r.stack, depth := r.depth, room := r.room
    threads := m.threads.setIfInBounds m.thread state, thread := r.thread, resumers := resumers }

/-- Suspends the running coroutine; the outermost one goes on at once. -/
def yield (m : Machine) (args : List Value) : Machine :=
  if !isYieldable m.stack then m.raise (.text "attempt to yield across a C-call boundary")
  else
    match m.resumers with
    -- Nobody waits for the outermost coroutine: the session resumes it without values.
    | [] => { m with focus := .give [] }
    | r :: rs =>
      let stack := m.stack
      m.goBack r rs (.suspended stack) (.give (if r.isWrap then args else .bool true :: args))

/-- The variables that a stack still has to close, those to be closed first in front. -/
def openVariables (stack : List Frame) : List Value :=
  stack.filterMap fun
    | .closing v _ => some v
    | _ => none

/-- Closes variables after an error or without one; an error in closing takes the place of the one
before. -/
def closeAll : List Value → Option Value → Action (Option Value)
  | [], e => return e
  | v :: vs, e => do
    let f ← Action.inspect (·.metamethod v .close)
    -- All variables are closed, whatever errors there are; the last of these is told.
    match ← Action.call (.builtin (.base .pcall)) [f, v, e.getD .nil] with
    | .bool false :: e' :: _ => closeAll vs (some e')
    | _ => closeAll vs e

/-- An error of a coroutine as it goes on to the one that called it. -/
def wrapError (place : ByteArray) (e : Value) : Value :=
  match e with
  -- The error for lack of memory is the same everywhere.
  | .string s => if e == memoryError then e else .string (place ++ s)
  | e => e

/-- The status of a coroutine. -/
def status (m : Machine) (t : Nat) : String :=
  if t = m.thread then "running"
  else match m.threads.getD t .dead with
    | .fresh _ | .suspended _ => "suspended"
    | .active => "normal"
    | .failed .. | .dead => "dead"

/-- Carries out a function on coroutines. -/
def runCoroutine (host : Host) (m : Machine) (f : CoroutineFunction) (args : List Value) : Machine :=
  let g : Value := .builtin (.coroutine f)
  let native (action : Action (List Value)) : Machine := m.runNative host g action
  match f with
  | .create | .wrap =>
    match args with
    | v :: _ =>
      if v.type == .function then
        let t := m.threads.size
        { m with
          threads := m.threads.push (.fresh v)
          focus := .give [if f == .wrap then .wrapper t else .thread t] }
      else native (Args.failType args 1 "function")
    | [] => native (Args.failType args 1 "function")
  | .resume =>
    match args with
    | .thread t :: args => m.resume t args false
    | _ => native (Args.failType args 1 "coroutine")
  | .yield => m.yield args
  | .isyieldable => { m with focus := .give [.bool (isYieldable m.stack)] }
  | .running => { m with focus := .give [.thread m.thread, .bool false] }
  | .status =>
    match args with
    | .thread t :: _ => { m with focus := .give [.text (m.status t)] }
    | _ => native (Args.failType args 1 "coroutine")
  | .close =>
    match args with
    | .thread t :: _ =>
      let close (m : Machine) (stack : List Frame) (e : Option Value) : Machine :=
        runNative host { m with threads := m.threads.setIfInBounds t .dead } g do
          match ← closeAll (openVariables stack) e with
          | none => return [.bool true]
          | some e => return [.bool false, e]
      match m.threads.getD t .dead with
      -- What a coroutine left open when it failed or yielded is closed now.
      | .failed e stack => close m stack (some e)
      | .suspended stack => close m stack none
      | .fresh _ | .dead =>
        { m with threads := m.threads.setIfInBounds t .dead, focus := .give [.bool true] }
      | .active =>
        let s := m.status t
        native (Action.failLocated s!"cannot close a {s} coroutine")
    | _ => native (Args.failType args 1 "coroutine")

/-- Raises an error value with the place of a level before it if it is a string. -/
def raiseLevel (m : Machine) (v : Value) (level : Int64) : Machine :=
  match v with
  | .string s =>
    if level > 0 then m.raiseText (levelText level.toNatClampNeg m.stack ++ s) else m.raise v
  | v => m.raise v

/-- Calls a function with errors caught. -/
def protectedCall (m : Machine) (f : Value) (args : List Value) (handler? : Option Value) : Machine :=
  let depth := m.depth
  let room := m.room
  nest { m with stack := .protect handler? depth room :: m.stack } ByteArray.empty fun m =>
    { m with focus := .enter f args }

/-- Enters a library function. -/
def enterBuiltin (host : Host) (m : Machine) (b : Builtin) (args : List Value) : Machine :=
  let g : Value := .builtin b
  match b with
  | .coroutine f => m.runCoroutine host f args
  -- A level that is no number is an error itself; without one it is the first.
  | .base .error =>
    match (args.getD 1 .nil).toInt?, args.getD 1 .nil with
    | some level, _ => m.raiseLevel (args.headD .nil) level
    | none, .nil => m.raiseLevel (args.headD .nil) 1
    | none, _ => m.runNative host g do
      let _ ← Args.int args 2
      return []
  -- The function is called by the machine, and not by an action, so that coroutines can yield in it.
  | .base .pcall =>
    match args with
    | f :: args => m.protectedCall f args none
    | [] => m.runNative host g (do return [← Args.any args 1])
  | .base .xpcall =>
    match args with
    | f :: handler :: rest =>
      if handler.type == .function then m.protectedCall f rest (some handler)
      else m.runNative host g (Args.failType args 2 "function")
    | _ => m.runNative host g (Args.failType args 2 "function")
  | b =>
    -- A parser nests on top of the calls that are running.
    let depth := m.depth
    m.runNative host g (Library.run depth b args)

/-- Enters a value that is called; the one below gets the results. Values that are no functions are called
through their metatables. -/
def enter (host : Host) : Nat → Machine → Value → List Value → Machine
  | 0, m, _, _ => m.raiseText "C stack overflow".toUTF8
  | fuel + 1, m, f, args =>
    match f with
    | .closure r => m.enterClosure r args
    | .builtin b => m.enterBuiltin host b args
    | .wrapper t => m.resume t args true
    | .matcher r => m.runNative host f (Library.nextMatch r)
    | f =>
      match m.heap.metafield f Event.callKey with
      -- Errors name the called value by the code that calls it.
      | .nil =>
        let suffix := match callNaming? m.stack with
          | some n => n.text
          | none => ByteArray.empty
        m.raiseText (levelText 1 m.stack ++ "attempt to call a ".toUTF8 ++ m.heap.typeName f
          ++ " value".toUTF8 ++ suffix)
      -- The value comes before its arguments.
      | g => enter host fuel m g (f :: args)

/-- The frames from the next boundary on. -/
def dropToBoundary : List Frame → List Frame
  | [] => []
  | f :: fs => if f.isBoundary then f :: fs else dropToBoundary fs

/-- The number of places taken below a boundary. -/
def roomBelow : List Frame → Nat
  | .caller _ _ _ _ room :: _ => room
  | .operation _ _ _ _ _ _ _ room :: _ => room
  | .native _ _ _ room :: _ => room
  | .protect _ _ room :: _ => room
  | .handled _ room :: _ => room
  | .closed _ _ _ _ room :: _ => room
  | _ => 0

/-- Calls a value from code. -/
def call (host : Host) (m : Machine) (f : Value) (args : List Value) (line : Nat) (name : CallName)
    (want : Want) : Machine :=
  match want, f with
  -- The function takes the place of the running one: nothing of it is left on the stack.
  | .tail, .closure r =>
    let stack := dropToBoundary m.stack
    { m with stack := stack, room := roomBelow stack }.enterClosure r args
  -- Other values are called as usual, and their results are returned.
  | .tail, f =>
    let room := m.room
    enter host maxDepth
      { m with stack := .caller m.act line name .all room :: .return :: m.stack, act := default } f args
  | want, f =>
    let room := m.room
    enter host maxDepth
      { m with stack := .caller m.act line name want room :: m.stack, act := default } f args

/-! ## Closing variables -/

/-- Closes a variable and goes on as told. -/
def closeVariable (m : Machine) (v e : Value) (line : Nat) (after : AfterClose) : Machine :=
  let depth := m.depth
  let room := m.room
  let f := m.heap.metamethod v .close
  nest { m with stack := .closed m.act line after depth room :: m.stack, act := default }
    ByteArray.empty fun m => { m with focus := .enter f [v, e] }

/-! ## Results -/

/-- Ends the running coroutine with results. -/
def endThread (m : Machine) (vs : List Value) : Machine :=
  match m.resumers with
  | [] => { m with focus := .finished vs }
  | r :: rs => m.goBack r rs .dead (.give (if r.isWrap then vs else .bool true :: vs))

/-- Gives results to the boundary on top of the stack. -/
def give (host : Host) (m : Machine) (vs : List Value) : Machine :=
  match m.stack with
  | [] => m.endThread vs
  | .caller act _ _ want room :: stack => deliver { m with act := act, stack := stack, room := room } want vs
  -- The operation or function that called goes on with the results.
  | .operation act next event operands line want depth room :: stack =>
    operate { m with act := act, stack := stack, depth := depth, room := room } (next vs) event operands
      line want
  | .native g next depth room :: stack =>
    runNative host { m with stack := stack, depth := depth, room := room } g (next vs)
  | .protect _ depth room :: stack =>
    { m with focus := .give (.bool true :: vs), stack := stack, depth := depth, room := room }
  -- What the handler gives goes on in place of the error.
  | .handled depth room :: stack =>
    { m with focus := .unwind (vs.headD .nil), stack := stack, depth := depth, room := room }
  | .closed act _ after depth room :: stack =>
    let m := { m with act := act, stack := stack, depth := depth, room := room }
    match after with
    | .done => { m with focus := .done }
    | .leave => { m with focus := .leave }
    | .goto l => { m with focus := .goto l }
    | .give vs => { m with focus := .return vs }
    | .unwind e => { m with focus := .unwind e }
  -- Frames of the function that ends are dropped.
  | _ :: stack => { m with focus := .give vs, stack := stack }

/-! ## Leaving scopes -/

/-- Returns from the running function: the variables of its scopes are closed first. -/
def returnFrom (m : Machine) (vs : List Value) : List Frame → Machine
  | [] => { m with focus := .give vs, stack := [] }
  -- After closing, the return goes on with the frames below.
  | .closing v line :: fs => closeVariable { m with stack := fs } v .nil line (.give vs)
  | f :: fs =>
    if f.isBoundary then { m with focus := .give vs, stack := f :: fs } else returnFrom m vs fs

/-- Leaves the innermost loop of the running function. -/
def leaveLoop (m : Machine) : List Frame → Machine
  | [] => { m with focus := .done, stack := [] }
  | .closing v line :: fs => closeVariable { m with stack := fs } v .nil line .leave
  | .loop .. :: fs | .repeatLoop .. :: fs | .numericLoop .. :: fs | .genericLoop .. :: fs =>
    { m with focus := .done, stack := fs }
  | f :: fs => if f.isBoundary then { m with focus := .done, stack := f :: fs } else leaveLoop m fs

/-- The statements after a label. -/
def afterLabel? (label : ByteArray) : List Step → Option (List Step)
  | [] => none
  | .label name :: steps => if name == label then some steps else afterLabel? label steps
  | _ :: steps => afterLabel? label steps

/-- Goes to a label of a block around in the running function. -/
def goTo (m : Machine) (label : ByteArray) : List Frame → Machine
  | [] => { m with focus := .done, stack := [] }
  | .closing v line :: fs => closeVariable { m with stack := fs } v .nil line (.goto label)
  -- The label is in this block or in one around it.
  | .block all _ :: fs =>
    match afterLabel? label all with
    | some steps => { m with focus := .done, stack := .block all steps :: fs }
    | none => goTo m label fs
  | f :: fs => if f.isBoundary then { m with focus := .done, stack := f :: fs } else goTo m label fs

/-! ## Errors -/

/-- The handler of the innermost place that catches errors, or nothing if errors are not caught. -/
def handler? : List Frame → Option (Option Value)
  | [] => none
  | .protect h _ _ :: _ => some h
  | _ :: fs => handler? fs

/-- Raises an error: its handler is called where it is raised. -/
def handle (m : Machine) (e : Value) : Machine :=
  match handler? m.stack with
  | some (some h) =>
    -- With no memory left, no handler is called.
    if e == memoryError then { m with focus := .unwind e }
    else
      let depth := m.depth
      let room := m.room
      nest { m with stack := .handled depth room :: m.stack } ByteArray.empty fun m =>
        { m with focus := .enter h [e] }
  | _ => { m with focus := .unwind e }

/-- Goes on to the place where an error is caught; variables on the way are closed. -/
def unwindTo (m : Machine) (e : Value) : List Frame → Machine
  | [] => { m with focus := .failed e, stack := [] }
  | .protect _ depth room :: fs =>
    { m with focus := .give [.bool false, e], stack := fs, depth := depth, room := room }
  -- The error goes on after closing, or the one of closing in its place.
  | .closing v line :: fs => closeVariable { m with stack := fs } v e line (.unwind e)
  | _ :: fs => unwindTo m e fs

/-- Lets an error end the running coroutine, or be caught in it. -/
def unwind (host : Host) (m : Machine) (e : Value) : Machine :=
  match handler? m.stack with
  | some _ =>
    let stack := m.stack
    unwindTo m e stack
  | none =>
    match m.resumers with
    | [] => { m with focus := .failed e }
    | r :: rs =>
      let stack := m.stack
      -- A wrapped coroutine is closed at once, and its error raised where it was called.
      if r.isWrap then
        runNative host (m.goBack r rs .dead .done) (.wrapper m.thread) do
          let e ← closeAll (openVariables stack) (some e)
          Action.fail (.value (wrapError (levelText 1 r.stack) (e.getD .nil)))
      else m.goBack r rs (.failed e stack) (.give [.bool false, e])

end Machine

end VaultConsole.Lua
