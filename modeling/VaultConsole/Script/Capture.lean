/-!
# Captured output

The lines that a session printed since the last clear. The text of the capture is these lines in
order, each followed by a line feed.
-/

namespace VaultConsole

/-- Lines, the latest first. -/
structure Capture where
  latestFirst : List String
  deriving DecidableEq, Repr, Inhabited

namespace Capture

/-- No lines. -/
def empty : Capture := ⟨[]⟩

/-- One more line at the end. -/
def writeLine (c : Capture) (line : String) : Capture := ⟨line :: c.latestFirst⟩

/-- The lines in order. -/
def lines (c : Capture) : List String := c.latestFirst.reverse

/-- The lines in order, each followed by a line feed. -/
def text (c : Capture) : String := c.lines.foldl (fun t line => t ++ line ++ "\n") ""

end Capture

end VaultConsole
