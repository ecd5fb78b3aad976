import VaultConsole.Proofs.Walk

/-!
# Routes

A walk knows of a path only the step that it is at. `IsRoute` is the rule that a whole path follows: where
each part of it leads, and that no link in it leads back. `reached_iff` says that a walk goes down exactly
the routes.
-/

namespace VaultConsole

namespace FileTree

variable {t : FileTree}

/-- A path of names down to a file: every part of it but the whole leads to a directory, and a link in it
leads to none of the directories on the way to the link, nor to one that the walk was in before. -/
structure IsRoute (t : FileTree) (links : Nat) (inside : List Location) (here : Location)
    (names : List FileName) : Prop where
  ne_nil : names ≠ []
  visible : ∀ name ∈ names, name.IsName ∧ name.isHidden = false
  directories : ∀ above rest, names = above ++ rest → rest ≠ [] →
    ∃ l entries, t.lead? links here above = some l ∧ t.find? l = some (.directory entries)
  noLoop : ∀ above name rest, names = above ++ name :: rest → rest ≠ [] →
    ∀ l, t.lead? links here above = some l → t.IsLink l name →
      ∀ found, t.lead? links here (above ++ [name]) = some found →
        found ∉ inside ∧ ∀ before after, above = before ++ after →
          t.lead? links here before ≠ some found
  file : ∃ l content, t.lead? links here names = some l ∧ t.find? l = some (.file content)

@[simp]
theorem lead?_nil (links : Nat) (here : Location) : t.lead? links here [] = some here := by
  simp only [lead?, resolve_nil]

/-- Where a path leads is found from where its first name leads. -/
theorem lead?_cons {links left : Nat} {here found : Location} {name : FileName}
    (leads : t.resolve links here [name] = .ok (found, left)) (names : List FileName) :
    t.lead? links here (name :: names) = t.lead? left found names := by
  have step := resolve_append t links here [name] names
  rw [leads] at step
  simp only [lead?]
  rw [show name :: names = [name] ++ names from rfl, step]
  rfl

/-- A path leads somewhere only if its first name does. -/
theorem exists_resolve_of_lead? {links : Nat} {here found : Location} {name : FileName}
    {names : List FileName} (h : t.lead? links here (name :: names) = some found) :
    ∃ next left, t.resolve links here [name] = .ok (next, left) := by
  have step := resolve_append t links here [name] names
  simp only [lead?] at h
  rw [show name :: names = [name] ++ names from rfl, step] at h
  cases first : t.resolve links here [name] with
  | error fault =>
    rw [first] at h
    cases h
  | ok r => exact ⟨r.1, r.2, rfl⟩

/-- A path of one name to a file is a route. -/
theorem isRoute_singleton {links left : Nat} {inside : List Location} {here found : Location}
    {name : FileName} {entries : List (FileName × Entry)} {content : ByteArray}
    (isDirectory : t.find? here = some (.directory entries)) (named : name.IsName)
    (visible : name.isHidden = false) (leads : t.resolve links here [name] = .ok (found, left))
    (isFile : t.find? found = some (.file content)) : t.IsRoute links inside here [name] where
  ne_nil := by simp
  visible := by simpa using ⟨named, visible⟩
  directories := by
    intro above rest split more
    cases above with
    | nil => exact ⟨here, entries, lead?_nil links here, isDirectory⟩
    | cons name' above =>
      have : rest = [] := by simp_all
      exact absurd this more
  noLoop := by
    intro above name' rest split more
    have := congrArg List.length split
    have := List.length_pos_iff.2 more
    simp only [List.length_cons, List.length_nil, List.length_append] at *
    omega
  file := ⟨found, content, by rw [lead?_cons leads, lead?_nil], isFile⟩

/-- A route that goes on from where a name leads, without a loop, is a route. -/
theorem isRoute_cons {links left : Nat} {inside : List Location} {here found : Location}
    {name : FileName} {names : List FileName} {entries : List (FileName × Entry)}
    (among : here ∈ inside) (isDirectory : t.find? here = some (.directory entries))
    (named : name.IsName) (visible : name.isHidden = false)
    (leads : t.resolve links here [name] = .ok (found, left))
    (noLoop : t.IsLink here name → found ∉ inside)
    (rest : t.IsRoute left (found :: inside) found names) :
    t.IsRoute links inside here (name :: names) where
  ne_nil := by simp
  visible := by
    intro name' member
    obtain rfl | member := List.mem_cons.1 member
    · exact ⟨named, visible⟩
    · exact rest.visible name' member
  directories := by
    intro above below split more
    -- The directory at the start, or one further down, where the rest of the route tells.
    cases above with
    | nil => exact ⟨here, entries, lead?_nil links here, isDirectory⟩
    | cons first above =>
      rw [List.cons_append, List.cons.injEq] at split
      obtain ⟨rfl, split⟩ := split
      rw [lead?_cons leads]
      exact rest.directories above below split more
  noLoop := by
    intro above link below split more l leadsAbove isLink target leadsTarget
    cases above with
    | nil =>
      rw [List.nil_append, List.cons.injEq] at split
      obtain ⟨rfl, rfl⟩ := split
      rw [lead?_nil] at leadsAbove
      cases leadsAbove
      rw [List.nil_append, lead?_cons leads, lead?_nil] at leadsTarget
      cases leadsTarget
      -- A link of the first name may not lead back to where the path begins either.
      refine ⟨noLoop isLink, fun before after split => ?_⟩
      obtain ⟨rfl, rfl⟩ := List.append_eq_nil_iff.1 split.symm
      rw [lead?_nil]
      rintro ⟨⟩
      exact noLoop isLink among
    | cons first above =>
      rw [List.cons_append, List.cons.injEq] at split
      obtain ⟨rfl, split⟩ := split
      rw [lead?_cons leads] at leadsAbove
      rw [List.cons_append, lead?_cons leads] at leadsTarget
      obtain ⟨away, apart⟩ := rest.noLoop above link below split more l leadsAbove isLink target
        leadsTarget
      rw [List.mem_cons, not_or] at away
      refine ⟨away.2, fun before after split => ?_⟩
      cases before with
      | nil =>
        rw [lead?_nil]
        rintro ⟨⟩
        exact away.2 among
      | cons second before =>
        rw [List.cons_append, List.cons.injEq] at split
        obtain ⟨rfl, split⟩ := split
        rw [lead?_cons leads]
        exact apart before after split
  file := by
    obtain ⟨l, content, leadsFile, isFile⟩ := rest.file
    exact ⟨l, content, by rw [lead?_cons leads, leadsFile], isFile⟩

/-- What is left of a route after its first name is a route from there. -/
theorem IsRoute.tail {links left : Nat} {inside : List Location} {here found : Location}
    {name : FileName} {names : List FileName} (h : t.IsRoute links inside here (name :: names))
    (leads : t.resolve links here [name] = .ok (found, left)) (filled : names ≠ []) :
    t.IsRoute left (found :: inside) found names where
  ne_nil := filled
  visible := fun name' member => h.visible name' (List.mem_cons_of_mem _ member)
  directories := by
    intro above rest split more
    have := h.directories (name :: above) rest (by rw [split, List.cons_append]) more
    rwa [lead?_cons leads] at this
  noLoop := by
    intro above link rest split more l leadsAbove isLink target leadsTarget
    obtain ⟨away, apart⟩ := h.noLoop (name :: above) link rest (by rw [split, List.cons_append]) more l
      (by rw [lead?_cons leads, leadsAbove]) isLink target
      (by rw [List.cons_append, lead?_cons leads, leadsTarget])
    have first := apart [name] above rfl
    rw [lead?_cons leads, lead?_nil] at first
    refine ⟨?_, fun before after split => ?_⟩
    · rw [List.mem_cons, not_or]
      exact ⟨fun same => first (by rw [same]), away⟩
    · have := apart (name :: before) after (by rw [split, List.cons_append])
      rwa [lead?_cons leads] at this
  file := by
    obtain ⟨l, content, leadsFile, isFile⟩ := h.file
    rw [lead?_cons leads] at leadsFile
    exact ⟨l, content, leadsFile, isFile⟩

/-- The paths that a walk goes down are the routes. -/
theorem reached_iff {links : Nat} {inside : List Location} {here : Location}
    (among : here ∈ inside) {entries : List (FileName × Entry)}
    (isDirectory : t.find? here = some (.directory entries)) {names : List FileName} :
    Reached t links inside here names ↔ t.IsRoute links inside here names := by
  induction names generalizing links inside here entries with
  | nil => exact ⟨nofun, fun h => absurd rfl h.ne_nil⟩
  | cons name names ih =>
    constructor
    · intro h
      cases h with
      | last named visible leads isFile => exact isRoute_singleton isDirectory named visible leads isFile
      | down named visible leads isBelow noLoop rest =>
        exact isRoute_cons among isDirectory named visible leads noLoop
          ((ih List.mem_cons_self isBelow).1 rest)
    · intro h
      obtain ⟨l, content, leadsFile, isFile⟩ := h.file
      obtain ⟨next, left, leads⟩ := exists_resolve_of_lead? leadsFile
      obtain ⟨named, visible⟩ := h.visible name List.mem_cons_self
      cases names with
      | nil =>
        rw [lead?_cons leads, lead?_nil] at leadsFile
        cases leadsFile
        exact .last named visible leads isFile
      | cons name' names =>
        have first : t.lead? links here [name] = some next := by rw [lead?_cons leads, lead?_nil]
        -- The path goes on, so its first name leads to a directory.
        obtain ⟨l', below, leadsBelow, isBelow⟩ := h.directories [name] (name' :: names) rfl (by simp)
        rw [first] at leadsBelow
        cases leadsBelow
        refine .down named visible leads isBelow (fun isLink => ?_)
          ((ih List.mem_cons_self isBelow).2 (h.tail leads (by simp)))
        exact (h.noLoop [] name (name' :: names) rfl (by simp) here (lead?_nil links here) isLink next
          first).1

end FileTree

end VaultConsole
