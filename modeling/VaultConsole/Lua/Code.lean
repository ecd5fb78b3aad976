import VaultConsole.Lua.Syntax
import VaultConsole.Lua.Value

/-!
# Code

A chunk whose names are resolved. A local of the running function is a slot, or a cell where functions
inside the scope mention its name and the chunk assigns to it; a variable of an enclosing function is one of
those that a closure carries along, as the cell that it is in or as the value that it keeps. A global is an
access to a table. The code of an expression also tells how messages name its value.
-/

namespace VaultConsole.Lua

/-- The place of a local variable. -/
inductive LocalVar where
  | slot (i : Nat)
  /-- A cell, made anew each time the declaration is carried out. -/
  | cell (i : Nat)
  deriving DecidableEq, Repr, Inhabited

/-- Where a closure takes a variable from when it is made. -/
inductive CaptureSource where
  /-- The value in a slot of the running function. -/
  | slot (i : Nat)
  /-- A cell of the running function. -/
  | cell (i : Nat)
  /-- What the running closure carries along. -/
  | carried (i : Nat)
  deriving DecidableEq, Repr, Inhabited

/-- Operators whose operands are both evaluated and taken at the same time. -/
inductive Operator where
  | add | sub | mul | div | floorDiv | mod | pow
  | bitAnd | bitOr | bitXor | shiftLeft | shiftRight
  | eq | ne | lt | le | gt | ge
  deriving DecidableEq, Repr, Inhabited

mutual

/-- An expression. -/
inductive Code where
  | const (v : Value)
  | dots
  | local (v : LocalVar) (name : ByteArray)
  | carried (i : Nat) (name : ByteArray)
  | function (p : Proto)
  | index (object key : Code) (line : Nat)
  | call (callee : Code) (args : List Code) (line : Nat)
  | method (object : Code) (name : ByteArray) (args : List Code) (nameLine line : Nat)
  | unary (op : UnaryOp) (operand : Code) (line : Nat)
  | binary (op : Operator) (left right : Code) (line : Nat)
  | and (left right : Code)
  | or (left right : Code)
  /-- A chain of concatenations, carried out from its end. -/
  | concat (operands : List Code) (line : Nat)
  | table (fields : List CodeField) (items entries : Nat)
  /-- An expression in parentheses, which gives one value. -/
  | paren (inner : Code)

/-- A field of a table constructor. -/
inductive CodeField where
  | item (value : Code)
  | entry (key value : Code) (line : Nat)

/-- A function. -/
inductive Proto where
  /-- `params` are the places of the parameters; `slots` and `cells` are the numbers of places that a
  call needs, and `captures` tells where a closure takes its variables from. -/
  | mk (chunk : ByteArray) (params : List LocalVar) (isVararg : Bool) (slots cells : Nat)
      (captures : List (CaptureSource × ByteArray)) (body : List Step)

/-- A statement. -/
inductive Step where
  | locals (vars : List LocalVar) (values : List Code)
  /-- Locals of which the one at a position is closed when its scope is left. -/
  | closing (vars : List LocalVar) (values : List Code) (position : Nat) (name : ByteArray) (line : Nat)
  | assign (targets : List Code) (values : List Code) (line : Nat)
  | call (e : Code)
  | block (body : List Step)
  | loop (condition : Code) (body : List Step)
  /-- A body that is carried out over and over. -/
  | repeat (body : List Step)
  /-- Leaves the loop around if a condition holds. -/
  | leaveIf (condition : Code)
  | branch (condition : Code) (yes no : List Step)
  | numericFor (var : LocalVar) (start stop step : Code) (body : List Step) (prepareLine line : Nat)
  | genericFor (vars : List LocalVar) (values : List Code) (body : List Step) (line : Nat)
  | localFunction (var : LocalVar) (p : Proto)
  | ret (values : List Code) (line : Nat)
  /-- A return of the values of a call that takes the place of the running one. -/
  | tailCall (e : Code)
  | leave
  | goto (label : ByteArray)
  | label (name : ByteArray)

end

instance : Inhabited Code := ⟨.dots⟩

instance : Inhabited Proto := ⟨.mk ByteArray.empty [] false 0 0 [] []⟩

instance : Inhabited Step := ⟨.leave⟩

namespace Proto

/-- The name of the chunk in messages. -/
def chunk : Proto → ByteArray
  | .mk c .. => c

def params : Proto → List LocalVar
  | .mk _ ps .. => ps

def isVararg : Proto → Bool
  | .mk _ _ v .. => v

/-- The number of slots that a call needs. -/
def slots : Proto → Nat
  | .mk _ _ _ n .. => n

/-- The number of cells that a call needs. -/
def cells : Proto → Nat
  | .mk _ _ _ _ n .. => n

/-- Where a closure takes its variables from. -/
def captures : Proto → List (CaptureSource × ByteArray)
  | .mk _ _ _ _ _ cs _ => cs

def body : Proto → List Step
  | .mk _ _ _ _ _ _ b => b

end Proto

/-- How messages name a value: what it is and its name. -/
structure Naming where
  kind : String
  name : ByteArray
  deriving DecidableEq, Inhabited

namespace Naming

/-- The naming in parentheses after a blank. -/
def text (n : Naming) : ByteArray :=
  s!" ({n.kind} '".toUTF8 ++ (beforeNul n.name.toList).toByteArray ++ "')".toUTF8

end Naming

/-- The name of the variable that holds the globals. -/
def environmentName : ByteArray := "_ENV".toUTF8

namespace Code

/-- How messages name the value of an expression. -/
def naming? : Code → Option Naming
  | .const (.string s) => some ⟨"constant", s⟩
  | .local _ name => some ⟨"local", name⟩
  | .carried _ name => some ⟨"upvalue", name⟩
  | .index object key _ =>
    let kind := if (object.naming?.map (·.name)) == some environmentName then "global" else "field"
    match key with
    | .const (.string s) => some ⟨kind, s⟩
    | .const (.int n) =>
      if 0 ≤ n && n ≤ 255 then some ⟨"field", "integer index".toUTF8⟩ else some ⟨kind, "?".toUTF8⟩
    | _ => some ⟨kind, "?".toUTF8⟩
  | .paren inner => inner.naming?
  | _ => none

/-- Whether evaluating the expression only fetches a value. -/
def isAtom : Code → Bool
  | .const _ => true
  | .local .. => true
  | .carried .. => true
  | _ => false

/-- Whether the expression can give any number of values. -/
def isMulti : Code → Bool
  | .dots => true
  | .call .. => true
  | .method .. => true
  | _ => false

end Code

end VaultConsole.Lua
