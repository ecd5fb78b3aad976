import VaultConsole.Files.Path

/-!
# Changes of a file tree

Writing a file, making directories, placing an entry and removing one. Links on the way are followed; where
an entry is placed, what lies on the way and is not there is made as a directory.
-/

namespace VaultConsole

/-- The entries with an entry put under a name, in place if the name is there already. -/
def putEntry (name : FileName) (e : Entry) : List (FileName × Entry) → List (FileName × Entry)
  | [] => [(name, e)]
  | (n, old) :: es => if n == name then (n, e) :: es else (n, old) :: putEntry name e es

/-- An entry with the entries of the directory at a location below it changed. -/
def Entry.modify (f : List (FileName × Entry) → List (FileName × Entry)) : Entry → Location → Entry
  | .directory entries, [] => .directory (f entries)
  | .directory entries, name :: names =>
    match entries.lookup name with
    | some e => .directory (putEntry name (e.modify f names) entries)
    | none => .directory entries
  | e, _ => e

namespace FileTree

/-- The tree with the entries of the directory at a location changed. -/
def modify (t : FileTree) (l : Location) (f : List (FileName × Entry) → List (FileName × Entry)) :
    FileTree :=
  match (Entry.directory t.entries).modify f l with
  | .directory entries => ⟨entries⟩
  | _ => t

/-- The tree with an entry put under a name into the directory at a location. -/
def put (t : FileTree) (l : Location) (name : FileName) (e : Entry) : FileTree :=
  t.modify l (putEntry name e)

/-- Makes the directories that segments lead through, and tells where the last one is. -/
def makeDirectories (t : FileTree) (here : Location) : List FileName → FileTree × Location
  | [] => (t, here)
  | s :: rest =>
    match t.resolve maxLinks here [s] with
    | .ok (l, _) => t.makeDirectories l rest
    | .error _ => (t.put here s (.directory [])).makeDirectories (here ++ [s]) rest

/-- Makes the directories on the way, and puts an entry at the end of it. -/
def place (t : FileTree) (here : Location) (segments : List FileName) (e : Entry) : FileTree :=
  match segments.getLast? with
  | none => t
  | some name =>
    let (t, l) := t.makeDirectories here segments.dropLast
    t.put l name e

/-- The last name of a path and the way to it; a path ends in a name also if empty segments follow it. -/
def lastName? (segments : List FileName) : Option (List FileName × FileName) :=
  match segments.reverse.dropWhile List.isEmpty with
  | [] => none
  | name :: way => some (way.reverse, name)

/-- Where the file is that segments lead to, or where it is to be made: the directory, and the name in it. A
link in its place is followed, wherever it leads. -/
def placeOf (t : FileTree) (links : Nat) (here : Location) (segments : List FileName) :
    Except FileFault (Location × FileName) :=
  match lastName? segments with
  | none => .error .isDirectory
  | some (way, name) =>
    match _ : t.resolve links here way with
    | .error fault => .error fault
    | .ok (l, left) =>
      match t.find? l with
      | some (.directory entries) =>
        if segments.getLast? = some [] ∨ name = FileName.here ∨ name = FileName.parent then .error .isDirectory
        else if FileName.maxLength < name.length then .error .nameTooLong
        else
          match entries.lookup name with
          | some (.directory _) => .error .isDirectory
          -- The file is where the link leads, whether it is there already or not.
          | some (.link target) =>
            match left with
            | 0 => .error .linkLoop
            | left + 1 => t.placeOf left (origin l target) (segmentsOf target)
          | _ => .ok (l, name)
      | some _ => .error .notDirectory
      | none => .error .noSuchFile
termination_by links
decreasing_by exact Nat.lt_of_succ_le (resolve_links_le ‹_›)

/-- Where a file is written. -/
def writePlace (t : FileTree) (here : Location) (segments : List FileName) :
    Except FileFault (Location × FileName) :=
  if segments.any (·.contains 0) then .error .nulInName
  -- The empty path leads nowhere.
  else if segments = [[]] then .error .noSuchFile
  else t.placeOf maxLinks here segments

/-- Writes a file, anew if there is one. -/
def writeFile (t : FileTree) (here : Location) (segments : List FileName) (content : ByteArray) :
    Except FileFault FileTree :=
  match t.writePlace here segments with
  | .error fault => .error fault
  | .ok (l, name) => .ok (t.put l name (.file content))

/-- Removes the entry at the end of the way, with all that is below it. -/
def remove (t : FileTree) (here : Location) (segments : List FileName) : FileTree :=
  match segments.getLast?, t.resolve maxLinks here segments.dropLast with
  | some name, .ok (l, _) => t.modify l (·.filter (·.1 != name))
  | _, _ => t

end FileTree

end VaultConsole
