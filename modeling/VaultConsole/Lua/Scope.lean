import VaultConsole.Lua.Syntax

/-!
# Scopes of names and labels

What a parser has to know about the functions and blocks around it to refuse a chunk: which names are
local and whether they may be assigned to, which labels can be reached, and how many locals there
are.
-/

namespace VaultConsole.Lua

/-- A jump whose label has not been seen yet. -/
structure PendingJump where
  /-- The label, or none for a `break`. -/
  label? : Option ByteArray
  line : Nat
  /-- The number of locals in scope at the jump. -/
  level : Nat
  deriving Inhabited

/-- A label of an open block. -/
structure LabelMark where
  name : ByteArray
  line : Nat
  deriving Inhabited

/-- An open block. -/
structure BlockScope where
  /-- The number of locals in scope around the block. -/
  base : Nat
  isLoop : Bool
  labels : List LabelMark
  jumps : List PendingJump
  deriving Inhabited

/-- An open function. -/
structure FunctionScope where
  /-- Names in scope with their attributes, the latest first. -/
  names : List (ByteArray × Attribute)
  /-- Open blocks, the innermost first. -/
  blocks : List BlockScope
  isVararg : Bool
  /-- The line of the function, zero for the chunk itself. -/
  line : Nat
  deriving Inhabited

/-- The number of locals that a function can have at once. -/
def maxLocals : Nat := 200

namespace FunctionScope

/-- The number of locals in scope. -/
def size (f : FunctionScope) : Nat := f.names.length

/-- Adds a local. -/
def declare (f : FunctionScope) (name : ByteArray) (kind : Attribute) : FunctionScope :=
  { f with names := (name, kind) :: f.names }

/-- Opens a block. -/
def openBlock (f : FunctionScope) (isLoop : Bool) : FunctionScope :=
  { f with blocks := ⟨f.size, isLoop, [], []⟩ :: f.blocks }

/-- Closes the innermost block. Its locals and labels go out of scope; the jumps that still look for a
label go to the block around it, those without one if there is none. -/
def closeBlock (f : FunctionScope) : FunctionScope × List PendingJump :=
  match f.blocks with
  | [] => (f, [])
  | b :: outer =>
    let names := f.names.drop (f.size - b.base)
    let jumps := if b.isLoop then b.jumps.filter (·.label?.isSome) else b.jumps
    let jumps := jumps.map fun j => { j with level := min j.level b.base }
    match outer with
    | [] => ({ f with names, blocks := [] }, jumps)
    | o :: os =>
      ({ f with names, blocks := { o with jumps := o.jumps ++ jumps } :: os }, [])

/-- The label of a name in an open block. -/
def findLabel (f : FunctionScope) (name : ByteArray) : Option LabelMark :=
  f.blocks.findSome? fun b => b.labels.find? (·.name == name)

/-- Adds a jump to the innermost block. -/
def addJump (f : FunctionScope) (j : PendingJump) : FunctionScope :=
  match f.blocks with
  | b :: outer => { f with blocks := { b with jumps := b.jumps ++ [j] } :: outer }
  | [] => f

/-- Adds a label that is reached with `level` locals in scope: the jumps to it are settled. The result
is the first of them that would enter the scope of a local, with the name of that local, if there is
one. -/
def addLabel (f : FunctionScope) (name : ByteArray) (line level : Nat) :
    FunctionScope × Option (PendingJump × ByteArray) :=
  match f.blocks with
  | b :: outer =>
    let mine := b.jumps.filter (·.label? == some name)
    let others := b.jumps.filter (·.label? != some name)
    let bad := mine.find? (·.level < level)
    ({ f with blocks := { b with labels := ⟨name, line⟩ :: b.labels, jumps := others } :: outer },
      bad.map fun j => (j, (f.names[f.size - 1 - j.level]?.map (·.1)).getD ByteArray.empty))
  | [] => (f, none)

end FunctionScope

/-- The attribute of a name, searched from the innermost function out; none for a global. -/
def lookupAttribute (scopes : List FunctionScope) (name : ByteArray) : Option Attribute :=
  scopes.findSome? fun f => f.names.lookup name

end VaultConsole.Lua
