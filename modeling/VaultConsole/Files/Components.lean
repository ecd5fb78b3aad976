import VaultConsole.Files.Path

/-!
# Paths put together and taken apart

A path grows by one segment after the other. A segment that begins with a separator takes the place of all
that was there before. What a path consists of are its components: the top of the tree if the path begins there,
and the names and the steps upwards on the way. Segments that stay where they are count only at the very
beginning.
-/

namespace VaultConsole.Path

/-- A path with a segment behind it. -/
def push (path segment : List UInt8) : List UInt8 :=
  if segment.head? == some separator then segment
  else if path.getLast?.all (· == separator) then path ++ segment
  else path ++ separator :: segment

/-- The path of segments below another path. -/
def below (root : List UInt8) (segments : List FileName) : List UInt8 := segments.foldl push root

/-- A part of a path. -/
inductive Component where
  /-- The top of the tree. -/
  | top
  /-- The directory in which the path is met. -/
  | here
  /-- The directory above. -/
  | parent
  | name (name : FileName)
  deriving DecidableEq, Repr

namespace Component

/-- The bytes of a component. -/
def bytes : Component → FileName
  | .top => [separator]
  | .here => FileName.here
  | .parent => FileName.parent
  | .name n => n

/-- The component that a segment is, unless it stays where it is. -/
def ofSegment? (segment : FileName) : Option Component :=
  if segment = [] ∨ segment = FileName.here then none
  else if segment = FileName.parent then some .parent
  else some (.name segment)

end Component

/-- How a path begins, if not with a name or a step upwards. -/
def opening (path : List UInt8) : List Component :=
  if path.head? = some separator then [.top]
  else if (segmentsOf path).head? = some FileName.here then [.here]
  else []

/-- The components of a path. -/
def components (path : List UInt8) : List Component :=
  opening path ++ (segmentsOf path).filterMap Component.ofSegment?

end VaultConsole.Path
