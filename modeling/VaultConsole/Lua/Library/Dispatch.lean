import VaultConsole.Lua.Library.Base
import VaultConsole.Lua.Library.Host
import VaultConsole.Lua.Library.Mathematics
import VaultConsole.Lua.Library.Packages
import VaultConsole.Lua.Library.Strings
import VaultConsole.Lua.Library.System
import VaultConsole.Lua.Library.Tables
import VaultConsole.Lua.Library.Unicode

/-!
# All library functions

What each library function does, except those that change how the machine goes on.
-/

namespace VaultConsole.Lua.Library

/-- Carries out a library function; `level` is the nesting that is in use already. -/
def run (level : Nat) (f : Builtin) (args : Args) : Action (List Value) :=
  match f with
  | .base .require => require args
  | .base .load => load level args
  | .base .loadfile => loadFile level args
  | .base .dofile => doFile level args
  | .base f => base f args
  | .string f => string f args
  | .table f => table f args
  | .math f => math f args
  | .utf8 f => utf8 f args
  | .os f => os f args
  | .io f => io f args
  | .package f => package level f args
  | .arithmetic op => do return [← Metamethod.stringArithmetic op (args.get 1) (args.get 2)]
  | .host f => host f args
  | .coroutine _ => pure []

end VaultConsole.Lua.Library
