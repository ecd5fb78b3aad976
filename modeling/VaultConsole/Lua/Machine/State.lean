import VaultConsole.Lua.Metamethod

/-!
# The state of a machine

A machine executes code step by step. What is left to do stands in a stack of frames, the next thing on
top; some frames mark the boundary of a function that waits for another one. Every coroutine has a stack
of its own.
-/

namespace VaultConsole.Lua

/-- A running function of the language. -/
structure Activation where
  chunk : ByteArray
  /-- The variables that the closure carries along. -/
  carried : Array Captured
  slots : Array Value
  /-- The cells of the locals that are in cells. -/
  cells : Array Nat
  varargs : List Value
  deriving Inhabited

/-- How a called function is named in messages. -/
inductive CallName where
  /-- By the expression that is called. -/
  | code (c : Code)
  | method (name : ByteArray)
  | iterator
  | metamethod (e : Event)
  | unnamed
  deriving Inhabited

/-- The naming of a called function, if there is one. -/
def CallName.naming? : CallName → Option Naming
  | .code c => c.naming?
  | .method name => some ⟨"method", name⟩
  | .iterator => some ⟨"for iterator", "for iterator".toUTF8⟩
  | .metamethod e => some ⟨"metamethod", e.name.toUTF8⟩
  | .unnamed => none

/-- What becomes of results: the first one is asked for, all are, or none, or they are those of the
function that asks for them. -/
inductive Want where
  | one
  | all
  | none
  | tail
  deriving DecidableEq, Repr, Inhabited

/-- An operand: a value, or a variable that is read when the operation is carried out. -/
inductive Operand where
  | value (v : Value)
  | local (v : LocalVar)
  | carried (i : Nat)
  deriving Inhabited

/-- A place to assign to. -/
inductive Target where
  | local (v : LocalVar)
  | carried (i : Nat)
  | index (object key : Operand) (code : Code)
  deriving Inhabited

/-- What goes on after a variable is closed. -/
inductive AfterClose where
  | done
  | leave
  | goto (label : ByteArray)
  | give (values : List Value)
  /-- An error goes on to where it is caught. -/
  | unwind (error : Value)
  deriving Inhabited

/-- A table constructor that is being carried out. -/
structure Building where
  ref : Nat
  /-- The number of items in the table, and those to come, latest first. -/
  stored : Nat
  pending : List Value
  rest : List CodeField
  deriving Inhabited

/-- The range of a numeric loop. -/
inductive Range where
  /-- The current number, and how often the step is still added to it. -/
  | ints (i step : Int64) (left : UInt64)
  | floats (x limit step : UInt64)
  deriving Inhabited

/-- What is left to do. The first group waits for a value, the second for values, the third for the end
of a statement; the last one marks functions that wait for the results of another one. -/
inductive Frame where
  | indexKey (object key : Code) (line : Nat)
  | indexAt (object : Operand) (objectCode : Code) (line : Nat)
  | unary (op : UnaryOp) (operand : Code) (line : Nat)
  | binaryRight (op : Operator) (left right : Code) (line : Nat)
  | binary (op : Operator) (left : Operand) (leftCode rightCode : Code) (line : Nat)
  | andThen (right : Code)
  | orElse (right : Code)
  | arguments (callee : Code) (args : List Code) (line : Nat) (want : Want)
  | methodOf (object : Code) (name : ByteArray) (args : List Code) (nameLine line : Nat) (want : Want)
  | methodCall (object : Value) (name : ByteArray) (args : List Code) (line : Nat) (want : Want)
  /-- Further expressions of a list; without any, values of the last one may follow. -/
  | more (done : List Value) (rest : List Code)
  | tableItem (b : Building)
  | tableKey (b : Building) (value : Code) (line : Nat)
  | tableEntry (b : Building) (key : Value) (line : Nat)
  | branch (yes no : List Step)
  | loopTest (condition : Code) (body : List Step)
  | leaveTest
  /-- An assignment whose targets are being evaluated, latest first. -/
  | targetKey (key code : Code) (done : List Target) (rest values : List Code) (line : Nat)
  | targetAt (object : Operand) (code : Code) (done : List Target) (rest values : List Code) (line : Nat)
  | assignOne (t : Target) (line : Nat)
  | declareOne (v : LocalVar)
  -- waiting for values
  | call (f : Value) (name : CallName) (line : Nat) (want : Want)
  | concat (operands : List Code) (line : Nat)
  | tableRest (b : Building)
  | return
  | declare (vars : List LocalVar)
  | declareClosing (vars : List LocalVar) (position : Nat) (name : ByteArray) (line : Nat)
      (rest : List Step)
  | assign (targets : List Target) (line : Nat)
  | startNumeric (var : LocalVar) (body : List Step) (prepareLine line : Nat)
  | startGeneric (vars : List LocalVar) (body : List Step) (line : Nat)
  | iterate (f state : Value) (vars : List LocalVar) (body : List Step) (line : Nat)
  -- waiting for the end of a statement
  /-- Further statements; `all` are those among which labels are looked for. -/
  | block (all rest : List Step)
  | loop (condition : Code) (body : List Step)
  | repeatLoop (body : List Step)
  | numericLoop (var : LocalVar) (range : Range) (body : List Step)
  | genericLoop (f state control : Value) (vars : List LocalVar) (body : List Step) (line : Nat)
  /-- Further targets with their values. -/
  | store (targets : List (Target × Value)) (line : Nat)
  /-- A variable that is closed when its scope is left. -/
  | closing (v : Value) (line : Nat)
  -- boundaries
  /-- A function of the language waits for a call. -/
  | caller (act : Activation) (line : Nat) (name : CallName) (want : Want) (room : Nat)
  /-- A function of the language waits for a metamethod. -/
  | operation (act : Activation) (next : List Value → Action (List Value)) (event : Event)
      (operands : List Code) (line : Nat) (want : Want) (depth room : Nat)
  /-- A library function waits for a function that it called. -/
  | native (f : Value) (next : List Value → Action (List Value)) (depth room : Nat)
  /-- Errors are caught, and handled where they are raised if there is a handler. -/
  | protect (handler? : Option Value) (depth room : Nat)
  /-- An error waits for its handler. -/
  | handled (depth room : Nat)
  /-- A function waits for the closing of a variable. -/
  | closed (act : Activation) (line : Nat) (after : AfterClose) (depth room : Nat)
  deriving Inhabited

/-- What a coroutine is doing. -/
inductive ThreadState where
  /-- It has not begun to call its function. -/
  | fresh (f : Value)
  | suspended (stack : List Frame)
  /-- It runs, or waits for one that runs. -/
  | active
  /-- It has ended, by an error with its pending frames or without. -/
  | failed (error : Value) (stack : List Frame)
  | dead
  deriving Inhabited

/-- A coroutine that waits for one that it has resumed. -/
structure Resumer where
  thread : Nat
  stack : List Frame
  depth : Nat
  room : Nat
  /-- Whether errors go on to it. -/
  isWrap : Bool
  deriving Inhabited

/-- What happens next. -/
inductive Focus where
  /-- An expression is evaluated for one value, or for all. -/
  | eval (c : Code)
  | evalAll (c : Code)
  /-- Expressions are evaluated after those whose values, latest first, are known. -/
  | evalList (done : List Value) (rest : List Code)
  | exec (steps : List Step)
  | value (v : Value)
  | values (vs : List Value)
  | done
  /-- Results of a function go to the boundary on top of the stack. -/
  | give (vs : List Value)
  /-- Code calls a value. -/
  | call (f : Value) (args : List Value) (line : Nat) (name : CallName) (want : Want)
  /-- A value is called whose boundary is on the stack. -/
  | enter (f : Value) (args : List Value)
  /-- A function of the language returns. -/
  | return (vs : List Value)
  | leave
  | goto (label : ByteArray)
  /-- An error is raised, and goes on to where it is caught. -/
  | raise (error : Value)
  | unwind (error : Value)
  /-- The machine has ended. -/
  | finished (vs : List Value)
  | failed (error : Value)
  /-- The machine has asked the platform for something that does not come back. -/
  | gone
  deriving Inhabited

/-- A machine. -/
structure Machine where
  focus : Focus
  act : Activation
  stack : List Frame
  heap : Heap
  /-- The nesting of calls that library functions and metamethods make. -/
  depth : Nat
  /-- The number of places that running functions take. -/
  room : Nat
  thread : Nat
  threads : Array ThreadState
  resumers : List Resumer
  deriving Inhabited

/-! ## Positions -/

/-- Whether a frame is a boundary. -/
def Frame.isBoundary : Frame → Bool
  | .caller .. | .operation .. | .native .. | .protect .. | .handled .. | .closed .. => true
  | _ => false

/-- The chunk and the line of a function that waits at a boundary, if it is one of the language. -/
def Frame.place? : Frame → Option (ByteArray × Nat)
  | .caller act line .. => some (act.chunk, line)
  | .operation act _ _ _ line .. => some (act.chunk, line)
  | .closed _ _ (.unwind _) .. => none
  | .closed act line .. => some (act.chunk, line)
  | _ => none

/-- The text of a place before a message. -/
def placeText (chunk : ByteArray) (line : Nat) : ByteArray :=
  chunk ++ s!":{line}: ".toUTF8

/-- The place of the `n`-th function that waits, counted from one; empty where there is none or it is
not one of the language. -/
def levelText : Nat → List Frame → ByteArray
  | _, [] => ByteArray.empty
  | 0, _ => ByteArray.empty
  | n + 1, f :: fs =>
    if f.isBoundary then
      if n = 0 then
        match f.place? with
        | some (chunk, line) => placeText chunk line
        | none => ByteArray.empty
      else levelText n fs
    else levelText (n + 1) fs

/-- The naming of the function that runs above a stack. -/
def callNaming? : List Frame → Option Naming
  | .caller _ _ name _ _ :: _ => name.naming?
  | .operation _ _ event .. :: _ => some ⟨"metamethod", event.name.toUTF8⟩
  | .closed .. :: _ => some ⟨"metamethod", "close".toUTF8⟩
  | _ => none

/-- Whether a function that runs above a stack can be suspended. -/
def isYieldable : List Frame → Bool
  | [] => true
  | .native .. :: _ => false
  | .handled .. :: _ => false
  | .closed _ _ (.unwind _) _ _ :: _ => false
  | _ :: fs => isYieldable fs

/-! ## Messages of faults -/

/-- The text of a fault without a place; `naming?` names operands. -/
def Fault.text (f : Fault) (naming? : Nat → Option Naming) : ByteArray :=
  let suffix (n : Nat) : ByteArray := match naming? n with
    | some x => x.text
    | none => ByteArray.empty
  match f with
  | .runtime m | .located m => m
  | .argument n m => s!"bad argument #{n} (".toUTF8 ++ m ++ ")".toUTF8
  | .operand n operation type =>
    s!"attempt to {operation} a ".toUTF8 ++ type ++ " value".toUTF8 ++ suffix n
  | .noInteger n => "number".toUTF8 ++ suffix n ++ " has no integer representation".toUTF8
  | .memory => memoryMessage.toUTF8
  | .nesting => "C stack overflow".toUTF8
  | .value _ => ByteArray.empty

/-- The name under which a function is found in the loaded packages. -/
def globalName? (h : Heap) (f : Value) : Option ByteArray :=
  (h.table h.loaded).toList.findSome? fun (package, fields) =>
    match package, fields with
    | .string p, .table r =>
      ((h.table r).toList.find? fun e => e.2 == f).bind fun (key, _) =>
        match key with
        | .string k => some (if p == "_G".toUTF8 then k else p ++ ".".toUTF8 ++ k)
        | _ => none
    | _, _ => none

/-- The message about an argument of a function that runs above a stack. -/
def argumentText (h : Heap) (stack : List Frame) (f : Value) (n : Nat) (m : ByteArray) : ByteArray :=
  let named (name : ByteArray) (n : Nat) : ByteArray :=
    s!"bad argument #{n} to '".toUTF8 ++ name ++ "' (".toUTF8 ++ m ++ ")".toUTF8
  match callNaming? stack with
  | some x =>
    if x.kind == "method" then
      if n = 1 then "calling '".toUTF8 ++ x.name ++ "' on bad self (".toUTF8 ++ m ++ ")".toUTF8
      else named x.name (n - 1)
    else named x.name n
  | none => named ((globalName? h f).getD "?".toUTF8) n

end VaultConsole.Lua
