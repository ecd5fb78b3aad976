import VaultConsole.Lua.Token

/-!
# Syntax trees

A chunk is a block of statements. Besides the structure, a tree keeps the lines that messages name:
for each operation the line on which it is carried out.
-/

namespace VaultConsole.Lua

/-- Operators with one operand. -/
inductive UnaryOp where
  | neg | not | len | bitNot
  deriving DecidableEq, Repr, Inhabited

/-- Operators with two operands. -/
inductive BinaryOp where
  | add | sub | mul | div | floorDiv | mod | pow
  | bitAnd | bitOr | bitXor | shiftLeft | shiftRight
  | concat | eq | ne | lt | le | gt | ge | and | or
  deriving DecidableEq, Repr, Inhabited

namespace BinaryOp

/-- How strongly an operator binds to its left and to its right; where the right is weaker it groups to
the right. -/
def binding : BinaryOp → Nat × Nat
  | .or => (1, 1)
  | .and => (2, 2)
  | .eq | .ne | .lt | .le | .gt | .ge => (3, 3)
  | .bitOr => (4, 4)
  | .bitXor => (5, 5)
  | .bitAnd => (6, 6)
  | .shiftLeft | .shiftRight => (7, 7)
  | .concat => (9, 8)
  | .add | .sub => (10, 10)
  | .mul | .div | .floorDiv | .mod => (11, 11)
  | .pow => (14, 13)

end BinaryOp

/-- How strongly the operators with one operand bind. -/
def unaryBinding : Nat := 12

/-- What a local variable is declared as. -/
inductive Attribute where
  | regular | const | close
  deriving DecidableEq, Repr, Inhabited

mutual

/-- An expression. -/
inductive Expr where
  | nil
  | bool (b : Bool)
  | number (n : Number)
  | string (s : ByteArray)
  | dots
  | function (f : FunctionBody)
  /-- A variable, fetched at a line. -/
  | name (s : ByteArray) (line : Nat)
  /-- An access to a table, carried out at a line. -/
  | index (object key : Expr) (line : Nat)
  | call (callee : Expr) (args : List Expr) (line : Nat)
  /-- A method call: the method is fetched at `nameLine` and called at `line`. -/
  | method (object : Expr) (name : ByteArray) (args : List Expr) (nameLine line : Nat)
  | unary (op : UnaryOp) (operand : Expr) (line : Nat)
  | binary (op : BinaryOp) (left right : Expr) (line : Nat)
  | table (fields : List Field)
  | paren (inner : Expr)

/-- A field of a table constructor. -/
inductive Field where
  | item (value : Expr)
  | entry (key value : Expr) (line : Nat)

/-- A function without its name. -/
inductive FunctionBody where
  | mk (params : List ByteArray) (isVararg : Bool) (body : List Stat) (line : Nat)

/-- A statement. -/
inductive Stat where
  | locals (names : List (ByteArray × Attribute)) (values : List Expr) (line : Nat)
  | assign (targets values : List Expr) (line : Nat)
  | call (e : Expr)
  | block (body : List Stat)
  | loop (condition : Expr) (body : List Stat)
  /-- A body that runs once before its condition is asked; the condition sees the locals of the
  body. -/
  | repeatUntil (body : List Stat) (condition : Expr)
  | branch (condition : Expr) (yes no : List Stat)
  | numericFor (name : ByteArray) (start stop : Expr) (step? : Option Expr) (body : List Stat)
      (prepareLine line : Nat)
  | genericFor (names : List ByteArray) (values : List Expr) (body : List Stat) (line : Nat)
  | localFunction (name : ByteArray) (f : FunctionBody)
  | ret (values : List Expr) (line : Nat)
  | leave
  | goto (label : ByteArray)
  | label (name : ByteArray)

end

/-- A block of statements. -/
abbrev Block := List Stat

instance : Inhabited Expr := ⟨.nil⟩

instance : Inhabited Stat := ⟨.leave⟩

instance : Inhabited FunctionBody := ⟨.mk [] false [] 0⟩

namespace Expr

/-- The expression with the line on which its value is fetched, for variables and table accesses. -/
def settle (line : Nat) : Expr → Expr
  | .name s _ => .name s line
  | .index o k _ => .index o k line
  | e => e

/-- Whether the expression can be assigned to. -/
def isTarget : Expr → Bool
  | .name .. => true
  | .index .. => true
  | _ => false

/-- Whether the expression is a call. -/
def isCall : Expr → Bool
  | .call .. => true
  | .method .. => true
  | _ => false

/-- Whether the expression can give any number of values. -/
def isMulti : Expr → Bool
  | .dots => true
  | e => e.isCall

end Expr

/-- The expressions with the last one settled. -/
def settleLast (line : Nat) : List Expr → List Expr
  | [] => []
  | [e] => [e.settle line]
  | e :: es => e :: settleLast line es

end VaultConsole.Lua
