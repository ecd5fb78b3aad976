/-!
# Powers

The powers that decimal and binary notations are made of.
-/

namespace VaultConsole.Decimal

/-- A power of two. -/
def twoTo (k : Nat) : Nat := Nat.pow 2 k

/-- A power of ten. -/
def tenTo (k : Nat) : Nat := Nat.pow 10 k

end VaultConsole.Decimal
