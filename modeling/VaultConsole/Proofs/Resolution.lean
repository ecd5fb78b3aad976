import VaultConsole.Files.Path

/-!
# Following paths

Where segments lead is found step by step: `resolve_append` follows the first segments and then, with the
links that are left, the others. `resolve_name` is one step to a name, which is an entry of the
directory or the target of a link in it. Names are those that a file system can have (`IsName`), and a tree
is well formed if every directory in it has such names, each once.
-/

namespace VaultConsole

/-- What can be the name of an entry. -/
structure FileName.IsName (name : FileName) : Prop where
  ne_nil : name ≠ []
  ne_here : name ≠ FileName.here
  ne_parent : name ≠ FileName.parent
  noSeparator : separator ∉ name
  noNul : 0 ∉ name
  length_le : name.length ≤ FileName.maxLength

theorem FileName.isName_iff {name : FileName} :
    name.IsName ↔ name ≠ [] ∧ name ≠ here ∧ name ≠ parent ∧ separator ∉ name ∧ 0 ∉ name ∧
      name.length ≤ maxLength :=
  ⟨fun ⟨a, b, c, d, e, f⟩ => ⟨a, b, c, d, e, f⟩, fun ⟨a, b, c, d, e, f⟩ => ⟨a, b, c, d, e, f⟩⟩

instance (name : FileName) : Decidable name.IsName := decidable_of_iff _ FileName.isName_iff.symm

namespace Entry

/-- An entry below which every directory has entries with names, each name once. -/
structure WellFormed (e : Entry) : Prop where
  isName : ∀ l entries, e.find? l = some (.directory entries) → ∀ p ∈ entries, p.1.IsName
  nodup : ∀ l entries, e.find? l = some (.directory entries) → (entries.map Prod.fst).Nodup

theorem find?_file {content : ByteArray} {l : Location} {entries : List (FileName × Entry)} :
    (file content).find? l ≠ some (.directory entries) := by
  cases l <;> simp [find?]

theorem find?_link {target : List UInt8} {l : Location} {entries : List (FileName × Entry)} :
    (link target).find? l ≠ some (.directory entries) := by
  cases l <;> simp [find?]

theorem wellFormed_file (content : ByteArray) : (file content).WellFormed :=
  ⟨fun _ _ h => absurd h find?_file, fun _ _ h => absurd h find?_file⟩

theorem wellFormed_link (target : List UInt8) : (link target).WellFormed :=
  ⟨fun _ _ h => absurd h find?_link, fun _ _ h => absurd h find?_link⟩

/-- A directory is well formed if its names are and its entries are. -/
theorem wellFormed_directory {entries : List (FileName × Entry)} (isName : ∀ p ∈ entries, p.1.IsName)
    (nodup : (entries.map Prod.fst).Nodup) (below : ∀ p ∈ entries, p.2.WellFormed) :
    (directory entries).WellFormed := by
  have within : ∀ (l : Location) inner, (directory entries).find? l = some (.directory inner) →
      inner = entries ∨ ∃ p ∈ entries, ∃ l', p.2.find? l' = some (.directory inner) := by
    intro l inner h
    cases l with
    | nil =>
      simp only [find?, Option.some.injEq, directory.injEq] at h
      exact .inl h.symm
    | cons name l =>
      obtain ⟨e, lookup, found⟩ := Option.bind_eq_some_iff.1 h
      obtain ⟨before, after, rfl, -⟩ := List.lookup_eq_some_iff.1 lookup
      exact .inr ⟨(name, e), by simp, l, found⟩
  constructor
  · intro l inner h
    obtain rfl | ⟨p, member, l', found⟩ := within l inner h
    · exact isName
    · exact (below p member).isName l' inner found
  · intro l inner h
    obtain rfl | ⟨p, member, l', found⟩ := within l inner h
    · exact nodup
    · exact (below p member).nodup l' inner found

end Entry

namespace FileTree

/-- A tree whose directories have entries with names, each name once. -/
abbrev WellFormed (t : FileTree) : Prop := (Entry.directory t.entries).WellFormed

/-- Where segments lead from a directory. -/
def lead? (t : FileTree) (links : Nat) (here : Location) (segments : List FileName) : Option Location :=
  match t.resolve links here segments with
  | .ok (l, _) => some l
  | .error _ => none

/-- Whether a name stands for a link in a directory. -/
def IsLink (t : FileTree) (here : Location) (name : FileName) : Prop :=
  ∃ entries target, t.find? here = some (.directory entries) ∧
    entries.lookup name = some (.link target)

@[simp]
theorem resolve_nil (t : FileTree) (links : Nat) (here : Location) :
    t.resolve links here [] = .ok (here, links) := by
  rw [resolve]

/-- What one segment does in a directory. -/
theorem resolve_directory {t : FileTree} {here : Location} {entries : List (FileName × Entry)}
    (isDirectory : t.find? here = some (.directory entries)) (links : Nat) (s : FileName)
    (rest : List FileName) :
    t.resolve links here (s :: rest) =
      if s = [] ∨ s = FileName.here then t.resolve links here rest
      else if s = FileName.parent then t.resolve links here.dropLast rest
      else if FileName.maxLength < s.length then .error .nameTooLong
      else
        match entries.lookup s with
        | none => .error .noSuchFile
        | some (.link target) =>
          match links with
          | 0 => .error .linkLoop
          | links + 1 => t.resolve links (origin here target) (segmentsOf target ++ rest)
        | some _ => t.resolve links (here ++ [s]) rest := by
  rewrite [resolve, isDirectory]
  rfl

/-- Segments are followed one after the other, with the links that are left. -/
theorem resolve_append (t : FileTree) (links : Nat) (here : Location) (first rest : List FileName) :
    t.resolve links here (first ++ rest) =
      (t.resolve links here first).bind fun r => t.resolve r.2 r.1 rest := by
  -- A link puts the segments of its target before the others, so the induction is that of `resolve`.
  induction links, here, first using resolve.induct t with
  | case1 links here =>
    rw [resolve_nil]
    rfl
  | case2 links here s first entries isDirectory stays ih =>
    rw [List.cons_append, resolve_directory isDirectory, resolve_directory isDirectory]
    simp only [if_pos stays]
    exact ih
  | case3 links here first entries isDirectory moves ih =>
    rw [List.cons_append, resolve_directory isDirectory, resolve_directory isDirectory]
    simp only [if_neg moves, if_true]
    exact ih
  | case4 links here s first entries isDirectory moves down long =>
    rw [List.cons_append, resolve_directory isDirectory, resolve_directory isDirectory]
    simp only [if_neg moves, if_neg down, if_pos long]
    rfl
  | case5 links here s first entries isDirectory moves down short missing =>
    rw [List.cons_append, resolve_directory isDirectory, resolve_directory isDirectory]
    simp only [if_neg moves, if_neg down, if_neg short, missing]
    rfl
  | case6 here s first entries isDirectory moves down short target isLink =>
    rw [List.cons_append, resolve_directory isDirectory, resolve_directory isDirectory]
    simp only [if_neg moves, if_neg down, if_neg short, isLink]
    rfl
  | case7 here s first entries isDirectory moves down short target isLink links ih =>
    rw [List.cons_append, resolve_directory isDirectory, resolve_directory isDirectory]
    simp only [if_neg moves, if_neg down, if_neg short, isLink]
    rw [← List.append_assoc]
    exact ih
  | case8 links here s first entries isDirectory moves down short e noLink isEntry ih =>
    rw [List.cons_append, resolve_directory isDirectory, resolve_directory isDirectory]
    simp only [if_neg moves, if_neg down, if_neg short, isEntry]
    exact ih
  | case9 links here s first e noDirectory isEntry =>
    rw [List.cons_append, resolve, resolve, isEntry]
    cases e with
    | directory entries => exact absurd rfl (noDirectory entries)
    | file content => rfl
    | link target => rfl
  | case10 links here s first missing =>
    rw [List.cons_append, resolve, resolve, missing]
    rfl

/-- One step to a name: to the entry, or to where the link leads. -/
theorem resolve_name {t : FileTree} {here : Location} {entries : List (FileName × Entry)}
    {name : FileName} (isDirectory : t.find? here = some (.directory entries)) (isName : name.IsName)
    (links : Nat) :
    t.resolve links here [name] =
      match entries.lookup name with
      | none => .error .noSuchFile
      | some (.link target) =>
        match links with
        | 0 => .error .linkLoop
        | links + 1 => t.follow links here target
      | some _ => .ok (here ++ [name], links) := by
  have moves : ¬ (name = [] ∨ name = FileName.here) := by
    rintro (h | h)
    · exact isName.ne_nil h
    · exact isName.ne_here h
  have short : ¬ FileName.maxLength < name.length := Nat.not_lt.2 isName.length_le
  rw [resolve_directory isDirectory]
  simp only [if_neg moves, if_neg isName.ne_parent, if_neg short, List.append_nil, resolve_nil]
  rfl

/-- The entry of a directory is what stands below it. -/
theorem find?_append_name {t : FileTree} {here : Location} {entries : List (FileName × Entry)}
    (isDirectory : t.find? here = some (.directory entries)) (name : FileName) :
    t.find? (here ++ [name]) = entries.lookup name := by
  -- Along the path, with any entry in place of the root.
  have below : ∀ (e : Entry) (l : Location), e.find? l = some (.directory entries) →
      e.find? (l ++ [name]) = entries.lookup name := by
    intro e l
    induction l generalizing e with
    | nil =>
      intro h
      cases h
      simp only [List.nil_append, Entry.find?]
      cases entries.lookup name with
      | none => rfl
      | some e => simp
    | cons s l ih =>
      intro h
      cases e with
      | file content => simp [Entry.find?] at h
      | link target => simp [Entry.find?] at h
      | directory inner =>
        simp only [Entry.find?, List.cons_append] at h ⊢
        cases lookup : inner.lookup s with
        | none =>
          rw [lookup] at h
          cases h
        | some e =>
          rw [lookup] at h
          exact ih e h
  exact below _ here isDirectory

/-- An entry of a directory in a well formed tree is found by its name. -/
theorem lookup_eq {t : FileTree} (wf : t.WellFormed) {here : Location}
    {entries : List (FileName × Entry)} (isDirectory : t.find? here = some (.directory entries))
    {name : FileName} {e : Entry} : entries.lookup name = some e ↔ (name, e) ∈ entries := by
  have nodup := wf.nodup here entries isDirectory
  clear isDirectory
  induction entries with
  | nil => simp
  | cons p entries ih =>
    obtain ⟨name', e'⟩ := p
    simp only [List.map_cons, List.nodup_cons] at nodup
    obtain ⟨fresh, nodup⟩ := nodup
    rw [List.lookup_cons]
    by_cases same : name = name'
    · subst same
      simp only [beq_self_eq_true, List.mem_cons, Prod.mk.injEq, true_and, Option.some.injEq]
      constructor
      · rintro rfl
        exact .inl rfl
      · rintro (rfl | h)
        · rfl
        · exact absurd (List.mem_map_of_mem (f := Prod.fst) h) fresh
    · have differs : (name == name') = false := beq_eq_false_iff_ne.2 same
      simp only [differs, List.mem_cons, Prod.mk.injEq, same, false_and, false_or]
      exact ih nodup

end FileTree

end VaultConsole
