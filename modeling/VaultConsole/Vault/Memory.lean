import VaultConsole.Vault.Basic

/-!
# A vault in memory

An ordered collection of documents with their contents, and at most one active document, which is
always a stored one. A new document goes to the end; writing a stored one keeps its place.
-/

namespace VaultConsole

/-- A vault that holds its documents itself. -/
structure MemoryVault where
  name : String
  /-- Paths and contents, in order of insertion. -/
  documents : List (String × String)
  /-- The path of the active document. -/
  active? : Option String
  deriving DecidableEq, Repr, Inhabited

namespace MemoryVault

/-- A vault without documents. -/
def empty (name : String) : MemoryVault := ⟨name, [], none⟩

/-- Whether a document is stored under the path. -/
def contains (v : MemoryVault) (path : String) : Bool := v.documents.any (·.1 == path)

/-- The content stored under the path. -/
def read? (v : MemoryVault) (path : String) : Option String := v.documents.lookup path

/-- The collection with the content written under the path, at the place that the path has. -/
def write (path content : String) : List (String × String) → List (String × String)
  | [] => [(path, content)]
  | (p, c) :: ds => if p == path then (p, content) :: ds else (p, c) :: write path content ds

/-- The first entry answers for its path. -/
theorem lookup_cons_if (p q c : String) (documents : List (String × String)) :
    List.lookup p ((q, c) :: documents) = if p = q then some c else documents.lookup p := by
  rw [List.lookup_cons]
  by_cases same : p = q
  · rw [if_pos same, beq_iff_eq.2 same]
  · rw [if_neg same, beq_eq_false_iff_ne.2 same]

theorem lookup_write (path content : String) (documents : List (String × String)) (p : String) :
    (write path content documents).lookup p = if p = path then some content else documents.lookup p := by
  induction documents with
  | nil => exact lookup_cons_if p path content []
  | cons d documents ih =>
    obtain ⟨q, c⟩ := d
    by_cases same : q = path
    · subst same
      simp only [write, beq_self_eq_true, if_true, lookup_cons_if]
      split <;> rfl
    · simp only [write, beq_eq_false_iff_ne.2 same, Bool.false_eq_true, if_false, lookup_cons_if, ih]
      by_cases asked : p = q
      · have other : p ≠ path := fun h => same (asked ▸ h)
        rw [if_pos asked, if_pos asked, if_neg other]
      · rw [if_neg asked, if_neg asked]

/-- Writing under a stored path keeps the paths, and a new path goes to the end of them. -/
theorem map_fst_write (path content : String) (documents : List (String × String)) :
    (write path content documents).map Prod.fst =
      if path ∈ documents.map Prod.fst then documents.map Prod.fst
      else documents.map Prod.fst ++ [path] := by
  induction documents with
  | nil => rfl
  | cons d documents ih =>
    obtain ⟨q, c⟩ := d
    by_cases same : q = path
    · simp [write, same]
    · have other : path ≠ q := fun h => same h.symm
      simp only [write, beq_eq_false_iff_ne.2 same, Bool.false_eq_true, if_false, List.map_cons, ih,
        List.mem_cons, other, false_or]
      split
      · rfl
      · rfl

/-- Stores a document, in place if the path is stored already and at the end if not. -/
def insert (v : MemoryVault) (path content : String) : MemoryVault :=
  { v with documents := write path content v.documents }

/-- Drops a document, together with its being active. -/
def remove (v : MemoryVault) (path : String) : MemoryVault :=
  if v.contains path then
    { v with
      documents := v.documents.filter (·.1 != path)
      active? := if v.active? == some path then none else v.active? }
  else v

/-- Drops a document, and tells the content that it had. -/
def take (v : MemoryVault) (path : String) : MemoryVault × Option String :=
  (v.remove path, v.read? path)

/-- Makes a stored document the active one; a path that is not stored leaves none active. -/
def setActive (v : MemoryVault) (path? : Option String) : MemoryVault :=
  { v with active? := path?.filter v.contains }

/-- The number of documents. -/
def size (v : MemoryVault) : Nat := v.documents.length

/-- The stored paths, in order of insertion. -/
def paths (v : MemoryVault) : List String := v.documents.map (·.1)

/-- The markdown documents, in order of insertion. -/
def markdownFiles (v : MemoryVault) : List Document :=
  (v.paths.map Document.mk).filter (·.isMarkdown)

/-- The active document. -/
def activeFile (v : MemoryVault) : Option Document := v.active?.map Document.mk

/-- The content of a document. -/
def read (v : MemoryVault) (d : Document) : Except ReadFault String :=
  match v.read? d.path with
  | some content => .ok content
  | none => .error (.notStored d.path)

/-- The vault as sessions see it; nothing has to be waited for, and nothing to be noted. -/
def view (v : MemoryVault) : Vault := ⟨v.name, v.markdownFiles, v.activeFile, v.read, false, []⟩

end MemoryVault

end VaultConsole
