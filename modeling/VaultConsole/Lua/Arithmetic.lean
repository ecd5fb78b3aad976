import VaultConsole.Lua.Code

/-!
# Arithmetic on values

Operations on numbers without metamethods. An operation that does not apply tells why: an operand is
no number, has no integer value, or the divisor is zero.
-/

namespace VaultConsole.Lua

/-- What an operation on two values gives by itself. -/
inductive Outcome where
  | value (v : Value)
  /-- The operands are not of the types that the operation takes. -/
  | mismatch
  /-- Both operands are numbers, but one has no integer value. -/
  | noInteger
  | divisionByZero
  | remainderByZero
  deriving Inhabited

namespace Arithmetic

/-- An operation on integers and on floats. -/
def onNumbers (ints : Int64 → Int64 → Outcome) (floats : UInt64 → UInt64 → UInt64) (a b : Value) :
    Outcome :=
  match a, b with
  | .int x, .int y => ints x y
  | .int x, .float y => .value (.float (floats (Real.ofInt x) y))
  | .float x, .int y => .value (.float (floats x (Real.ofInt y)))
  | .float x, .float y => .value (.float (floats x y))
  | _, _ => .mismatch

/-- An operation on floats, to which integers are converted. -/
def onFloats (floats : UInt64 → UInt64 → UInt64) (a b : Value) : Outcome :=
  onNumbers (fun x y => .value (.float (floats (Real.ofInt x) (Real.ofInt y)))) floats a b

/-- An operation on integers, to which floats are converted. -/
def onInts (ints : Int64 → Int64 → Int64) (a b : Value) : Outcome :=
  match a.number?, b.number? with
  | some x, some y =>
    match x.toInt?, y.toInt? with
    | some x, some y => .value (.int (ints x y))
    | _, _ => .noInteger
  | _, _ => .mismatch

/-- The result of an operator that gives a number. -/
def apply (op : Operator) (a b : Value) : Outcome :=
  match op with
  | .add => onNumbers (fun x y => .value (.int (x + y))) Real.add a b
  | .sub => onNumbers (fun x y => .value (.int (x - y))) Real.sub a b
  | .mul => onNumbers (fun x y => .value (.int (x * y))) Real.mul a b
  | .div => onFloats Real.div a b
  | .pow => onFloats Real.pow a b
  | .floorDiv =>
    onNumbers (fun x y => if y == 0 then .divisionByZero else .value (.int (Word.floorDiv x y)))
      Real.floorDiv a b
  | .mod =>
    onNumbers (fun x y => if y == 0 then .remainderByZero else .value (.int (Word.floorMod x y)))
      Real.mod a b
  | .bitAnd => onInts (· &&& ·) a b
  | .bitOr => onInts (· ||| ·) a b
  | .bitXor => onInts (· ^^^ ·) a b
  | .shiftLeft => onInts Word.shiftLeft a b
  | .shiftRight => onInts (fun x n => Word.shiftLeft x (-n)) a b
  | _ => .mismatch

/-- Whether an operator is one on bits. -/
def isBitwise : Operator → Bool
  | .bitAnd | .bitOr | .bitXor | .shiftLeft | .shiftRight => true
  | _ => false

/-- The order of two numbers. -/
def numberLt : Number → Number → Bool
  | .int a, .int b => a < b
  | .int a, .float b => Real.intLt a b
  | .float a, .int b => Real.ltInt a b
  | .float a, .float b => Real.lt a b

def numberLe : Number → Number → Bool
  | .int a, .int b => a ≤ b
  | .int a, .float b => Real.intLe a b
  | .float a, .int b => Real.leInt a b
  | .float a, .float b => Real.le a b

/-- The order of two strings, byte by byte from a position on. -/
def bytesLt (a b : ByteArray) : Nat → Nat → Bool
  | 0, _ => false
  | fuel + 1, i =>
    if h : i < b.size then
      if h' : i < a.size then
        if a[i] == b[i] then bytesLt a b fuel (i + 1) else a[i] < b[i]
      else true
    else false

/-- Whether a string comes before another. -/
def stringLt (a b : ByteArray) : Bool := bytesLt a b (b.size + 1) 0

end Arithmetic

end VaultConsole.Lua
