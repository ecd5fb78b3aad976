import VaultConsole.Lua.Metamethod

/-!
# Arguments of library functions

Arguments are counted from one. Each function here asks for an argument of some type and fails with a
message about it when the argument is not one and cannot be converted.
-/

namespace VaultConsole.Lua

/-- The arguments of a call. -/
abbrev Args := List Value

namespace Args

/-- The argument at a position, or nil. -/
def get (args : Args) (n : Nat) : Value := args.getD (n - 1) .nil

/-- Whether there is no argument at a position, or only nil. -/
def isNone (args : Args) (n : Nat) : Bool := (args.get n).isNil

/-- The name of the type of an argument in messages. -/
def typeName (args : Args) (n : Nat) : Action ByteArray :=
  if args.length < n then pure "no value".toUTF8
  else Action.inspect fun h => match h.metafield (args.get n) nameKey with
    | .string s => s
    | _ => (args.get n).type.name.toUTF8

/-- Fails because an argument has the wrong type. -/
def failType (args : Args) (n : Nat) (expected : String) : Action α := do
  Action.fail (.argument n ((expected ++ " expected, got ").toUTF8 ++ (← args.typeName n)))

/-- An argument, which has to be there. -/
def any (args : Args) (n : Nat) : Action Value :=
  if args.length < n then Action.failArgument n "value expected" else pure (args.get n)

/-- A table. -/
def table (args : Args) (n : Nat) : Action Nat :=
  match args.get n with
  | .table r => pure r
  | _ => args.failType n "table"

/-- A number. -/
def number (args : Args) (n : Nat) : Action Number :=
  match (args.get n).toNumber? with
  | some x => pure x
  | none => args.failType n "number"

/-- A number as the bits of a float. -/
def float (args : Args) (n : Nat) : Action UInt64 := do return (← args.number n).toFloat

/-- An integer. -/
def int (args : Args) (n : Nat) : Action Int64 :=
  match (args.get n).toNumber? with
  | some x =>
    match x.toInt? with
    | some i => pure i
    | none => Action.failArgument n "number has no integer representation"
  | none => args.failType n "number"

/-- An integer, or a default where there is none. -/
def intOr (args : Args) (n : Nat) (other : Int64) : Action Int64 :=
  if args.isNone n then pure other else args.int n

/-- A string; numbers are converted. -/
def bytes (args : Args) (n : Nat) : Action ByteArray :=
  match (args.get n).toBytes? with
  | some s => pure s
  | none => args.failType n "string"

/-- A string up to its first NUL byte, as the process takes it. -/
def name (args : Args) (n : Nat) : Action ByteArray := do
  return (beforeNul (← args.bytes n).toList).toByteArray

/-- A string as the process takes it, if there is one. -/
def name? (args : Args) (n : Nat) : Action (Option ByteArray) :=
  if args.isNone n then pure none else some <$> args.name n

/-- A string, or a default where there is none. -/
def bytesOr (args : Args) (n : Nat) (other : ByteArray) : Action ByteArray :=
  if args.isNone n then pure other else args.bytes n

/-- A text among the given ones. -/
def option (args : Args) (n : Nat) (other : Option String) (options : List String) : Action String := do
  let s ← match other with
    | some d => args.bytesOr n d.toUTF8
    | none => args.bytes n
  match options.find? (·.toUTF8 == s) with
  | some o => return o
  | none => Action.fail (.argument n ("invalid option '".toUTF8 ++ s ++ "'".toUTF8))

/-- A coroutine. -/
def thread (args : Args) (n : Nat) : Action Nat :=
  match args.get n with
  | .thread r => pure r
  | _ => args.failType n "coroutine"

end Args

/-- Values of integers and texts. -/
def Value.ofNat (n : Nat) : Value := .int (Int64.ofNat n)

end VaultConsole.Lua
