import VaultConsole.Text.Blank

/-!
# Commands

What a line of input asks for. Blank characters around a line do not matter, and a blank line asks for
nothing. What is no command by name is a source to execute.
-/

namespace VaultConsole

/-- What a line asks for. -/
inductive Command where
  | quit
  | reset
  | clear
  | run (source : String)
  deriving DecidableEq, Repr, Inhabited

/-- The command of a line. -/
def Command.ofLine? (line : String) : Option Command :=
  match Text.trim line with
  | "" => none
  | ":quit" => some .quit
  | ":q" => some .quit
  | ":reset" => some .reset
  | ":clear" => some .clear
  | source => some (.run source)

end VaultConsole
