import VaultConsole.Files.Path

/-!
# Walks

A walk goes through a directory in the order of names, each directory right at its place, and follows
links. Hidden entries are passed by. A link that leads nowhere, or back to a directory that the walk is in,
is told and not followed, so that a walk ends in every tree: each link on the way down leaves fewer links
for what is below it.
-/

namespace VaultConsole

/-- What a walk meets, with the path of names from its start. -/
inductive Visit where
  | file (path : List FileName)
  /-- A link that leads to nothing. -/
  | broken (path : List FileName) (fault : FileFault)
  /-- A link that leads to a directory that the walk is in. -/
  | loop (path above : List FileName)
  deriving DecidableEq, Repr, Inhabited

namespace Visit

/-- The path of a file. -/
def file? : Visit → Option (List FileName)
  | .file path => some path
  | _ => none

end Visit

/-- A directory that a walk is in: where it is, and the path under which the walk came there. -/
structure Ancestor where
  location : Location
  path : List FileName
  deriving DecidableEq, Repr, Inhabited

namespace FileTree

/-- Entries in the order of their names. -/
def inOrder (entries : List (FileName × Entry)) : List (FileName × Entry) :=
  entries.mergeSort fun a b => decide (a.1 ≤ b.1)

/-- The entries of a directory are smaller than what holds the directory. -/
theorem sizeOf_directory_lt {name : FileName} {below entries : List (FileName × Entry)}
    (met : (name, Entry.directory below) ∈ inOrder entries) : sizeOf below < sizeOf entries := by
  have listed : (name, Entry.directory below) ∈ entries :=
    (List.mergeSort_perm entries _).mem_iff.1 met
  have smaller := List.sizeOf_lt_of_mem listed
  simp only [Prod.mk.sizeOf_spec, Entry.directory.sizeOf_spec] at smaller
  omega

/-- What a walk meets below a directory, which is the first of those that it is in. -/
def walk (t : FileTree) (links : Nat) (inside : List Ancestor) (path : List FileName) (here : Location)
    (entries : List (FileName × Entry)) : List Visit :=
  (inOrder entries).attach.flatMap fun ⟨(name, entry), _⟩ =>
    let path := path ++ [name]
    match entry with
    | .file _ => if name.isHidden then [] else [.file path]
    | .directory below =>
      let here := here ++ [name]
      if name.isHidden then [] else t.walk links (⟨here, path⟩ :: inside) path here below
    -- What is told of a link is told of a hidden one too.
    | .link target =>
      match links with
      | 0 => [.broken path .linkLoop]
      | links + 1 =>
        match _ : t.follow links here target with
        | .error fault => [.broken path fault]
        | .ok (found, left) =>
          match t.find? found with
          | some (.directory below) =>
            match inside.find? (·.location == found) with
            | some a => [.loop path a.path]
            | none =>
              if name.isHidden then []
              else t.walk left (⟨found, path⟩ :: inside) path found below
          | some (.file _) => if name.isHidden then [] else [.file path]
          | _ => []
termination_by (links, sizeOf entries)
decreasing_by
  · exact Prod.Lex.right _ (sizeOf_directory_lt ‹_›)
  · exact Prod.Lex.left _ _ (Nat.lt_succ_of_le (follow_links_le ‹_›))

end FileTree

end VaultConsole
