import VaultConsole.Lua.Number
import VaultConsole.Text.Bytes

/-!
# Values of a session

What variables hold and expressions give. Tables, functions, coroutines and host objects are references
into the heap of their session, so equal references are the same object. Library functions are known
by name.
-/

namespace VaultConsole.Lua

/-! ## Library functions -/

/-- Functions without a table. -/
inductive BaseFunction where
  | assert | collectgarbage | dofile | error | getmetatable | ipairs | load | loadfile | next | pairs
  | pcall | print | rawequal | rawget | rawlen | rawset | require | select | setmetatable | tonumber
  | tostring | type | warn | xpcall
  /-- The step of a traversal of a sequence. -/
  | ipairsStep
  deriving DecidableEq, Repr, Hashable, Inhabited

/-- Functions on strings. -/
inductive StringFunction where
  | byte | char | dump | find | format | gmatch | gsub | len | lower | match | pack | packsize | rep
  | reverse | sub | unpack | upper
  deriving DecidableEq, Repr, Hashable, Inhabited

/-- Functions on tables. -/
inductive TableFunction where
  | concat | insert | move | pack | remove | sort | unpack
  deriving DecidableEq, Repr, Hashable, Inhabited

/-- Functions on numbers. -/
inductive MathFunction where
  | abs | acos | asin | atan | ceil | cos | cosh | deg | exp | floor | fmod | frexp | ldexp | log | log10
  | max | min | modf | pow | rad | random | randomseed | sin | sinh | sqrt | tan | tanh | tointeger
  | type | ult
  deriving DecidableEq, Repr, Hashable, Inhabited

/-- Functions on UTF-8 text. -/
inductive Utf8Function where
  | char | codepoint | codes | len | offset
  /-- The step of a traversal of code points, strict or not. -/
  | step (lax : Bool)
  deriving DecidableEq, Repr, Hashable, Inhabited

/-- Functions on coroutines. -/
inductive CoroutineFunction where
  | close | create | isyieldable | resume | running | status | wrap | yield
  deriving DecidableEq, Repr, Hashable, Inhabited

/-- Functions on the system. -/
inductive OsFunction where
  | clock | date | difftime | execute | exit | getenv | remove | rename | setlocale | time | tmpname
  deriving DecidableEq, Repr, Hashable, Inhabited

/-- Functions on streams. -/
inductive IoFunction where
  | close | flush | input | lines | open | output | popen | read | tmpfile | type | write
  /-- Methods of a stream. -/
  | streamMethod (name : String)
  /-- A function that reads from a stream at each call. -/
  | reader (ref : Nat)
  deriving DecidableEq, Repr, Hashable, Inhabited

/-- Functions on packages. -/
inductive PackageFunction where
  | searchpath | loadlib | preloadSearcher | fileSearcher
  /-- The searcher for packages that are not written in the language. -/
  | nativeSearcher
  deriving DecidableEq, Repr, Hashable, Inhabited

/-- Operations that strings take part in like the numbers they spell. -/
inductive StringArithmetic where
  | add | sub | mul | mod | pow | div | idiv | unm
  deriving DecidableEq, Repr, Hashable, Inhabited

/-- Functions of the host. -/
inductive HostFunction where
  | print | log | note | noteContent | name | activeFile | allFiles | frontMatter | parseYaml
  /-- The text of an error of the host. -/
  | failureText
  deriving DecidableEq, Repr, Hashable, Inhabited

/-- A function that is not written in the language. -/
inductive Builtin where
  | base (f : BaseFunction)
  | string (f : StringFunction)
  | table (f : TableFunction)
  | math (f : MathFunction)
  | utf8 (f : Utf8Function)
  | coroutine (f : CoroutineFunction)
  | os (f : OsFunction)
  | io (f : IoFunction)
  | package (f : PackageFunction)
  | arithmetic (op : StringArithmetic)
  | host (f : HostFunction)
  deriving DecidableEq, Repr, Hashable, Inhabited

/-! ## Values -/

/-- A standard stream of the process, or a file by its number. A session counts the files that it has opened,
and the process counts those of its own. -/
inductive Stream where
  | input | output | error
  | file (n : Nat)
  deriving DecidableEq, Repr, Hashable, Inhabited

/-- A value. -/
inductive Value where
  | nil
  | bool (b : Bool)
  | int (n : Int64)
  /-- A floating-point number by its bits. -/
  | float (bits : UInt64)
  | string (s : ByteArray)
  | table (ref : Nat)
  | closure (ref : Nat)
  | builtin (f : Builtin)
  /-- A function that resumes a coroutine. -/
  | wrapper (thread : Nat)
  /-- A function that gives one match after the other. -/
  | matcher (ref : Nat)
  | thread (ref : Nat)
  | stream (s : Stream)
  /-- An error of the host. -/
  | failure (ref : Nat)
  deriving DecidableEq, Hashable, Inhabited

/-- The basic types. -/
inductive BasicType where
  | nil | boolean | number | string | table | function | thread | userdata
  deriving DecidableEq, Repr, Inhabited

/-- The name of a basic type. -/
def BasicType.name : BasicType → String
  | nil => "nil" | boolean => "boolean" | number => "number" | string => "string" | table => "table"
  | function => "function" | thread => "thread" | userdata => "userdata"

/-- The integer that a number stands for, if it is integral and in range. -/
def Number.toInt? : Number → Option Int64
  | .int n => some n
  | .float b => Real.toInt? b

/-- The bits of a number as a float. -/
def Number.toFloat : Number → UInt64
  | .int n => Real.ofInt n
  | .float b => b

namespace Value

/-- The string of a text. -/
def text (s : String) : Value := .string s.toUTF8

/-- The basic type of a value. -/
def type : Value → BasicType
  | .nil => .nil
  | .bool _ => .boolean
  | .int _ | .float _ => .number
  | .string _ => .string
  | .table _ => .table
  | .closure _ | .builtin _ | .wrapper _ | .matcher _ => .function
  | .thread _ => .thread
  | .stream _ | .failure _ => .userdata

/-- The name under which the host knows the type of a value: integers and errors of the host have names
of their own. -/
def kind : Value → String
  | .int _ => "integer"
  | .float _ => "number"
  | .failure _ => "error"
  | v => v.type.name

/-- Every value but nil and false counts as true. -/
def isTruthy : Value → Bool
  | .nil => false
  | .bool b => b
  | _ => true

def isNil : Value → Bool
  | .nil => true
  | _ => false

theorem isNil_iff {v : Value} : v.isNil = true ↔ v = .nil := by
  cases v with
  | nil => exact ⟨fun _ => rfl, fun _ => rfl⟩
  | _ => exact ⟨nofun, nofun⟩

/-- A number as a value. -/
def ofNumber : Number → Value
  | .int n => .int n
  | .float b => .float b

/-- The number that a value is. -/
def number? : Value → Option Number
  | .int n => some (.int n)
  | .float b => some (.float b)
  | _ => none

/-- The number that a value is or spells. -/
def toNumber? : Value → Option Number
  | .int n => some (.int n)
  | .float b => some (.float b)
  | .string s => Numeral.read? s.toList
  | _ => none

/-- The integer that a value is or spells. -/
def toInt? (v : Value) : Option Int64 := v.toNumber?.bind Number.toInt?

/-- The bytes of a string or a number. -/
def toBytes? : Value → Option ByteArray
  | .string s => some s
  | .int n => some (Number.int n).text.toUTF8
  | .float b => some (Number.float b).text.toUTF8
  | _ => none

/-- Equality without metamethods: numbers are equal when their values are. -/
def rawEq : Value → Value → Bool
  | .int a, .int b => a == b
  | .int a, .float b => Real.toInt? b == some a
  | .float a, .int b => Real.toInt? a == some b
  | .float a, .float b => Real.eq a b
  | a, b => a == b

/-- The place that a reference is shown as. -/
def address : Value → Nat
  | .table r => 0x55D0A0000000 + 64 * r
  | .closure r => 0x55D0B0000000 + 64 * r
  | .builtin f => 0x55D090000000 + 16 * ((hash f).toNat % 0x1000000)
  | .wrapper r => 0x55D0C0000000 + 64 * r
  | .matcher r => 0x55D0D0000000 + 64 * r
  | .thread r => 0x55D0E0000000 + 64 * r
  | .failure r => 0x55D0F0000000 + 64 * r
  | .stream .input => 0x7F3A10000A80
  | .stream .output => 0x7F3A10000B60
  | .stream .error => 0x7F3A10000C40
  | .stream (.file n) => 0x55D100000000 + 64 * n
  | _ => 0

end Value

end VaultConsole.Lua
