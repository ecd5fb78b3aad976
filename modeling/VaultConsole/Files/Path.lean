import VaultConsole.Files.Basic
import VaultConsole.Text.Pieces

/-!
# Paths

A path is a list of segments that is followed from a directory. An empty segment and `.` stay where they
are, `..` goes up, and every other segment is the name of an entry; a symbolic link on the way is replaced
by the segments of its target. Only so many links are followed for one path, which is also why following a
path ends. `resolve_links_le` says that the number of links left never grows.
-/

namespace VaultConsole

/-- The byte between the segments of a path. -/
def separator : UInt8 := 47

/-- The segments of a path as bytes; there may be empty ones. -/
def segmentsOf (path : List UInt8) : List FileName := Text.pieces separator path

/-- The directory from which a path is followed: the top of the tree if the path begins with a separator,
and else the one in which it is met. -/
def origin (here : Location) (path : List UInt8) : Location :=
  if path.head? == some separator then [] else here

namespace FileTree

/-- The number of links that are followed for one path. -/
def maxLinks : Nat := 40

/-- Where segments lead from a directory, and the number of links that may be followed after that. -/
def resolve (t : FileTree) (links : Nat) (here : Location) (segments : List FileName) :
    Except FileFault (Location × Nat) :=
  match segments with
  | [] => .ok (here, links)
  | s :: rest =>
    match t.find? here with
    | some (.directory entries) =>
      if s = [] ∨ s = FileName.here then t.resolve links here rest
      -- Above the top there is nothing but the top.
      else if s = FileName.parent then t.resolve links here.dropLast rest
      else if FileName.maxLength < s.length then .error .nameTooLong
      else
        match entries.lookup s with
        | none => .error .noSuchFile
        | some (.link target) =>
          match links with
          | 0 => .error .linkLoop
          | links + 1 =>
            -- The segments of the target come before what is left of the path.
            t.resolve links (origin here target) (segmentsOf target ++ rest)
        | some _ => t.resolve links (here ++ [s]) rest
    | some _ => .error .notDirectory
    | none => .error .noSuchFile
termination_by (links, segments.length)

/-- Where a path leads that is met in a directory. -/
def follow (t : FileTree) (links : Nat) (here : Location) (path : List UInt8) :
    Except FileFault (Location × Nat) :=
  t.resolve links (origin here path) (segmentsOf path)

/-- Following a path uses up links and never adds any. -/
theorem resolve_links_le {t : FileTree} {links : Nat} {here : Location} {segments : List FileName}
    {found : Location} {left : Nat} (h : t.resolve links here segments = .ok (found, left)) :
    left ≤ links := by
  fun_induction resolve t links here segments <;> grind

theorem follow_links_le {t : FileTree} {links : Nat} {here : Location} {path : List UInt8}
    {found : Location} {left : Nat} (h : t.follow links here path = .ok (found, left)) :
    left ≤ links :=
  resolve_links_le h

/-- The entry that segments lead to. -/
def entryAt (t : FileTree) (base : Location) (segments : List FileName) : Except FileFault Entry :=
  if segments.any (·.contains 0) then .error .nulInName
  else
    match t.resolve maxLinks base segments with
    | .error fault => .error fault
    | .ok (l, _) =>
      match t.find? l with
      | some e => .ok e
      | none => .error .noSuchFile

/-- Whether segments lead to a file. -/
def isFile (t : FileTree) (base : Location) (segments : List FileName) : Bool :=
  match t.entryAt base segments with
  | .ok (.file _) => true
  | _ => false

/-- The text of the file that segments lead to. -/
def readText (t : FileTree) (base : Location) (segments : List FileName) : Except FileFault String :=
  match t.entryAt base segments with
  | .error fault => .error fault
  | .ok (.file content) =>
    match Text.Utf8.decode content with
    | .ok s => .ok s
    | .error _ => .error .invalidText
  | .ok _ => .error .isDirectory

end FileTree

end VaultConsole
