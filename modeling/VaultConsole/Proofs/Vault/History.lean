import Mathlib.Data.List.Induction
import Mathlib.Data.List.Nodup
import VaultConsole.Vault.Memory

/-!
# The history of a vault in memory

What a vault in memory holds is told by the changes that were made to it. `Leaves` says which content a
history leaves under a path, `Since` from which change on a path has been there, and `Selects` which document
is the active one; none of them speaks of a vault. `Tracks` says that a vault is what a history makes of it,
each change keeps that (`Tracks.change`), and `run_records` is what follows for every run: paths once each
and in order of insertion, contents, the active document, and what a removal answers.
-/

namespace VaultConsole

namespace MemoryVault

/-- A change of a vault in memory. -/
inductive Change where
  | insert (path content : String)
  | remove (path : String)
  | setActive (path? : Option String)
  deriving DecidableEq

/-- A vault after a change. -/
def change (v : MemoryVault) : Change → MemoryVault
  | .insert path content => v.insert path content
  | .remove path => (v.take path).1
  | .setActive path? => v.setActive path?

/-- A new vault after changes in order. -/
def run (name : String) (changes : List Change) : MemoryVault := changes.foldl change (empty name)

/-! ## Histories -/

namespace Change

/-- Whether a change writes or removes the document of a path. -/
def concerns (path : String) : Change → Prop
  | .insert p _ => p = path
  | .remove p => p = path
  | .setActive _ => False

/-- The content that a history leaves under a path: that of the latest insertion, if the path was not
removed since. -/
def Leaves (history : List Change) (path content : String) : Prop :=
  ∃ before after, history = before ++ .insert path content :: after ∧ ∀ c ∈ after, ¬ c.concerns path

/-- Whether a history leaves a document under a path. -/
def Holds (history : List Change) (path : String) : Prop := ∃ content, Leaves history path content

/-- The position of the insertion from which on a path has been there: it was not there before, and was not
removed since. -/
def Since (history : List Change) (path : String) (i : Nat) : Prop :=
  ∃ before content after, history = before ++ .insert path content :: after ∧ before.length = i ∧
    ¬ Holds before path ∧ .remove path ∉ after

/-- Whether a path is the one that is active after a history: the last choice of an active document was that
path, it was there at that moment, and it was not removed since. -/
def Selects (history : List Change) (path : String) : Prop :=
  ∃ before after, history = before ++ .setActive (some path) :: after ∧ Holds before path ∧
    (∀ path?, .setActive path? ∉ after) ∧ .remove path ∉ after

variable {history : List Change} {x : Change} {path content : String}

/-- A history with one more change splits at that change or at one before. -/
theorem concat_eq_append_cons {before after : List Change} {y : Change} :
    history ++ [x] = before ++ y :: after ↔
      (before = history ∧ y = x ∧ after = []) ∨ ∃ rest, after = rest ++ [x] ∧ history = before ++ y :: rest := by
  constructor
  · intro same
    -- Whether the split is at the last change is seen at the end of what follows it.
    induction after using List.reverseRecOn with
    | nil =>
      obtain ⟨rfl, last⟩ := List.append_inj' same rfl
      exact .inl ⟨rfl, (List.cons.inj last).1.symm, rfl⟩
    | append_singleton rest z _ =>
      rw [← List.cons_append, ← List.append_assoc] at same
      obtain ⟨rfl, last⟩ := List.append_inj' same rfl
      exact .inr ⟨rest, by rw [(List.cons.inj last).1], rfl⟩
  · rintro (⟨rfl, rfl, rfl⟩ | ⟨rest, rfl, rfl⟩)
    · rfl
    · rw [List.append_assoc, List.cons_append]

theorem not_leaves_nil : ¬ Leaves [] path content := by
  rintro ⟨before, after, split, -⟩
  exact absurd split.symm (by simp)

theorem leaves_concat :
    Leaves (history ++ [x]) path content ↔
      x = .insert path content ∨ (¬ x.concerns path ∧ Leaves history path content) := by
  simp only [Leaves, concat_eq_append_cons]
  constructor
  · rintro ⟨before, after, ⟨rfl, here, rfl⟩ | ⟨rest, rfl, split⟩, untouched⟩
    · exact .inl here.symm
    · refine .inr ⟨untouched x (by simp), before, rest, split, fun c inside => ?_⟩
      exact untouched c (List.mem_append_left _ inside)
  · rintro (rfl | ⟨other, before, after, split, untouched⟩)
    · exact ⟨history, [], .inl ⟨rfl, rfl, rfl⟩, by simp⟩
    · refine ⟨before, after ++ [x], .inr ⟨after, rfl, split⟩, fun c inside => ?_⟩
      obtain inside | last := List.mem_append.1 inside
      · exact untouched c inside
      · rw [List.mem_singleton.1 last]
        exact other

/-- A path is there after an insertion under it, and otherwise until it is removed. -/
theorem holds_concat :
    Holds (history ++ [x]) path ↔
      (∃ content, x = .insert path content) ∨ (x ≠ .remove path ∧ Holds history path) := by
  simp only [Holds, leaves_concat]
  constructor
  · rintro ⟨content, rfl | ⟨other, held⟩⟩
    · exact .inl ⟨content, rfl⟩
    · refine .inr ⟨?_, content, held⟩
      rintro rfl
      exact other rfl
  · rintro (⟨content, rfl⟩ | ⟨kept, content, held⟩)
    · exact ⟨content, .inl rfl⟩
    · cases x with
      | insert p c =>
        by_cases same : p = path
        · exact ⟨c, .inl (by rw [same])⟩
        · exact ⟨content, .inr ⟨same, held⟩⟩
      | remove p =>
        have other : p ≠ path := fun same => kept (by rw [same])
        exact ⟨content, .inr ⟨other, held⟩⟩
      | setActive p? => exact ⟨content, .inr ⟨id, held⟩⟩

theorem since_concat {i : Nat} :
    Since (history ++ [x]) path i ↔
      ((∃ content, x = .insert path content) ∧ ¬ Holds history path ∧ i = history.length) ∨
        (x ≠ .remove path ∧ Since history path i) := by
  simp only [Since, concat_eq_append_cons]
  constructor
  · rintro ⟨before, content, after, ⟨rfl, here, rfl⟩ | ⟨rest, rfl, split⟩, position, fresh, kept⟩
    · exact .inl ⟨⟨content, here.symm⟩, fresh, position.symm⟩
    · rw [List.mem_append, List.mem_singleton, not_or] at kept
      exact .inr ⟨fun last => kept.2 last.symm, before, content, rest, split, position, fresh, kept.1⟩
  · rintro (⟨⟨content, rfl⟩, fresh, rfl⟩ | ⟨last, before, content, after, split, position, fresh, kept⟩)
    · exact ⟨history, content, [], .inl ⟨rfl, rfl, rfl⟩, rfl, fresh, by simp⟩
    · refine ⟨before, content, after ++ [x], .inr ⟨after, rfl, split⟩, position, fresh, ?_⟩
      rw [List.mem_append, List.mem_singleton, not_or]
      exact ⟨kept, fun same => last same.symm⟩

/-- A change that inserts nothing is not what a document is there since. -/
theorem Since.before {i : Nat} (since : Since (history ++ [x]) path i) (other : ∀ content, x ≠ .insert path content) :
    Since history path i := by
  obtain ⟨⟨content, insertion⟩, -⟩ | ⟨-, since⟩ := since_concat.1 since
  · exact absurd insertion (other content)
  · exact since

theorem Since.lt {i : Nat} (since : Since history path i) : i < history.length := by
  obtain ⟨before, content, after, rfl, rfl, -, -⟩ := since
  simp

/-- A path that has been there since an insertion is there. -/
theorem Since.holds {i : Nat} (since : Since history path i) : Holds history path := by
  induction history using List.reverseRecOn with
  | nil => exact absurd since.lt (Nat.not_lt_zero i)
  | append_singleton history x ih =>
    rw [holds_concat]
    obtain ⟨inserted, -, -⟩ | ⟨kept, before⟩ := since_concat.1 since
    · exact .inl inserted
    · exact .inr ⟨kept, ih before⟩

theorem not_selects_nil : ¬ Selects [] path := by
  rintro ⟨before, after, split, -⟩
  exact absurd split.symm (by simp)

theorem selects_concat :
    Selects (history ++ [x]) path ↔
      (x = .setActive (some path) ∧ Holds history path) ∨
        ((∀ path?, x ≠ .setActive path?) ∧ x ≠ .remove path ∧ Selects history path) := by
  simp only [Selects, concat_eq_append_cons]
  constructor
  · rintro ⟨before, after, ⟨rfl, here, rfl⟩ | ⟨rest, rfl, split⟩, held, last, kept⟩
    · exact .inl ⟨here.symm, held⟩
    · simp only [List.mem_append, List.mem_singleton, not_or] at last kept
      exact .inr ⟨fun path? same => (last path?).2 same.symm, fun same => kept.2 same.symm, before, rest,
        split, held, fun path? => (last path?).1, kept.1⟩
  · rintro (⟨rfl, held⟩ | ⟨other, stays, before, after, split, held, last, kept⟩)
    · exact ⟨history, [], .inl ⟨rfl, rfl, rfl⟩, held, by simp, by simp⟩
    · refine ⟨before, after ++ [x], .inr ⟨after, rfl, split⟩, held, fun path? => ?_, ?_⟩
      · rw [List.mem_append, List.mem_singleton, not_or]
        exact ⟨last path?, fun same => other path? same.symm⟩
      · rw [List.mem_append, List.mem_singleton, not_or]
        exact ⟨kept, fun same => stays same.symm⟩

/-- The active document is there. -/
theorem Selects.holds (selects : Selects history path) : Holds history path := by
  induction history using List.reverseRecOn with
  | nil => exact absurd selects not_selects_nil
  | append_singleton history x ih =>
    rw [holds_concat]
    obtain ⟨rfl, held⟩ | ⟨-, kept, before⟩ := selects_concat.1 selects
    · exact .inr ⟨nofun, held⟩
    · exact .inr ⟨kept, ih before⟩

end Change

/-! ## What the changes do to a vault -/

theorem contains_iff {v : MemoryVault} {path : String} : v.contains path = true ↔ path ∈ v.paths := by
  simp only [contains, paths, List.any_eq_true, beq_iff_eq, List.mem_map]

theorem mem_paths_iff {v : MemoryVault} {path : String} :
    path ∈ v.paths ↔ ∃ content, v.read? path = some content := by
  rw [paths, read?, ← Option.isSome_iff_exists]
  induction v.documents with
  | nil => simp
  | cons d documents ih =>
    obtain ⟨p, c⟩ := d
    rw [List.map_cons, List.mem_cons, ih, lookup_cons_if]
    by_cases same : path = p
    · simp [same]
    · simp [same]

theorem read?_insert (v : MemoryVault) (path content p : String) :
    (v.insert path content).read? p = if p = path then some content else v.read? p :=
  lookup_write path content v.documents p

theorem paths_insert (v : MemoryVault) (path content : String) :
    (v.insert path content).paths = if path ∈ v.paths then v.paths else v.paths ++ [path] :=
  map_fst_write path content v.documents

/-- A new path is written at the end. -/
theorem write_of_notMem {path : String} (content : String) {documents : List (String × String)}
    (fresh : path ∉ documents.map Prod.fst) : write path content documents = documents ++ [(path, content)] := by
  induction documents with
  | nil => rfl
  | cons d documents ih =>
    rw [List.map_cons, List.mem_cons, not_or] at fresh
    have other : ¬ (d.1 == path) = true := fun same => fresh.1 (beq_iff_eq.1 same).symm
    rw [write, if_neg other, ih fresh.2, List.cons_append]

/-- Documents with different paths are stored as they are inserted. -/
theorem documents_run_insert (name : String) {documents : List (String × String)}
    (nodup : (documents.map Prod.fst).Nodup) :
    (run name (documents.map fun d => .insert d.1 d.2)).documents = documents := by
  induction documents using List.reverseRecOn with
  | nil => rfl
  | append_singleton documents d ih =>
    rw [List.map_append, List.nodup_append] at nodup
    obtain ⟨nodup, -, apart⟩ := nodup
    have fresh : d.1 ∉ documents.map Prod.fst := fun there => apart d.1 there d.1 List.mem_cons_self rfl
    rw [run, List.map_append, List.foldl_append]
    have before := ih nodup
    rw [run] at before
    simp only [List.map_cons, List.map_nil, List.foldl_cons, List.foldl_nil, change, insert, before]
    exact write_of_notMem d.2 fresh

/-- Of documents with different paths, each is found under its path. -/
theorem lookup_eq_some {path content : String} {documents : List (String × String)}
    (nodup : (documents.map Prod.fst).Nodup) :
    documents.lookup path = some content ↔ (path, content) ∈ documents := by
  induction documents with
  | nil => simp
  | cons d documents ih =>
    obtain ⟨q, c⟩ := d
    rw [List.map_cons, List.nodup_cons] at nodup
    rw [lookup_cons_if, List.mem_cons, Prod.mk.injEq, ← ih nodup.2]
    by_cases same : path = q
    · subst same
      have fresh : documents.lookup path ≠ some content := by
        rw [ne_eq, ih nodup.2]
        exact fun listed => nodup.1 (List.mem_map.2 ⟨_, listed, rfl⟩)
      simp [fresh, eq_comm]
    · simp [same]

/-- A removal drops the entries of its path, of which there may be none. -/
theorem documents_remove (v : MemoryVault) (path : String) :
    (v.remove path).documents = v.documents.filter (·.1 != path) := by
  unfold remove
  by_cases stored : v.contains path = true
  · rw [if_pos stored]
  · rw [if_neg stored, eq_comm, List.filter_eq_self]
    intro d listed
    rw [contains_iff] at stored
    exact bne_iff_ne.2 fun same => stored (same ▸ List.mem_map_of_mem listed)

theorem paths_remove (v : MemoryVault) (path : String) :
    (v.remove path).paths = v.paths.filter (· != path) := by
  rw [paths, documents_remove, paths, List.filter_map]
  rfl

theorem read?_remove (v : MemoryVault) (path p : String) :
    (v.remove path).read? p = if p = path then none else v.read? p := by
  rw [read?, documents_remove, read?]
  induction v.documents with
  | nil => simp
  | cons d documents ih =>
    obtain ⟨q, c⟩ := d
    -- The first document is kept or dropped; only a dropped one can have had the path.
    by_cases dropped : q = path
    · rw [List.filter_cons_of_neg (by simp [dropped]), ih, lookup_cons_if, dropped]
      split
      · rfl
      · rfl
    · rw [List.filter_cons_of_pos (by simp [dropped]), lookup_cons_if, ih, lookup_cons_if]
      by_cases asked : p = q
      · have other : p ≠ path := fun same => dropped (asked ▸ same)
        rw [if_pos asked, if_pos asked, if_neg other]
      · rw [if_neg asked, if_neg asked]

/-- A path that is not stored is not removed. -/
theorem remove_of_notMem {v : MemoryVault} {path : String} (absent : path ∉ v.paths) :
    v.remove path = v := by
  rw [remove, if_neg (fun stored => absent (contains_iff.1 stored))]

/-! ## Runs -/

/-- A vault is what a history makes of a new one. -/
structure Tracks (v : MemoryVault) (history : List Change) : Prop where
  nodup : v.paths.Nodup
  read : ∀ path content, v.read? path = some content ↔ Change.Leaves history path content
  since : ∀ path ∈ v.paths, ∃ i, Change.Since history path i
  ordered : v.paths.Pairwise fun p q => ∀ i j, Change.Since history p i → Change.Since history q j → i < j
  active : ∀ path, v.active? = some path ↔ Change.Selects history path

variable {v : MemoryVault} {history : List Change}

theorem tracks_empty (name : String) : (empty name).Tracks [] where
  nodup := .nil
  read _ _ := iff_of_false nofun Change.not_leaves_nil
  since := nofun
  ordered := .nil
  active _ := iff_of_false nofun Change.not_selects_nil

theorem Tracks.mem_paths (tracks : v.Tracks history) {path : String} :
    path ∈ v.paths ↔ Change.Holds history path := by
  rw [mem_paths_iff]
  exact exists_congr fun content => tracks.read path content

theorem Tracks.insert (tracks : v.Tracks history) (path content : String) :
    (v.insert path content).Tracks (history ++ [.insert path content]) where
  nodup := by
    rw [paths_insert]
    split
    case isTrue => exact tracks.nodup
    case isFalse fresh =>
      exact List.nodup_append.2 ⟨tracks.nodup, List.nodup_singleton path, fun p there q last same =>
        fresh (List.mem_singleton.1 last ▸ same ▸ there)⟩
  read p c := by
    rw [read?_insert, Change.leaves_concat]
    by_cases same : p = path
    · subst same
      simp [Change.concerns]
    · have other : path ≠ p := fun h => same h.symm
      simp [same, other, Change.concerns, tracks.read]
  since p there := by
    simp only [Change.since_concat]
    rw [paths_insert] at there
    split at there
    case isTrue =>
      obtain ⟨i, since⟩ := tracks.since p there
      exact ⟨i, .inr ⟨nofun, since⟩⟩
    case isFalse fresh =>
      obtain there | last := List.mem_append.1 there
      · obtain ⟨i, since⟩ := tracks.since p there
        exact ⟨i, .inr ⟨nofun, since⟩⟩
      · obtain rfl := List.mem_singleton.1 last
        exact ⟨history.length, .inl ⟨⟨content, rfl⟩, fun held => fresh (tracks.mem_paths.2 held), rfl⟩⟩
  ordered := by
    -- A stored path has been there since before the insertion, which changes nothing about that.
    have before : ∀ {p i}, p ∈ v.paths →
        Change.Since (history ++ [.insert path content]) p i → Change.Since history p i := by
      intro p i there since
      obtain ⟨-, fresh, -⟩ | ⟨-, since⟩ := Change.since_concat.1 since
      · exact absurd (tracks.mem_paths.1 there) fresh
      · exact since
    have old : v.paths.Pairwise fun p q => ∀ i j, Change.Since (history ++ [.insert path content]) p i →
        Change.Since (history ++ [.insert path content]) q j → i < j :=
      tracks.ordered.imp_of_mem fun there there' less i j since since' =>
        less i j (before there since) (before there' since')
    rw [paths_insert]
    split
    case isTrue => exact old
    case isFalse fresh =>
      refine List.pairwise_append.2 ⟨old, List.pairwise_singleton _ _, ?_⟩
      intro p there q last i j since since'
      obtain rfl := List.mem_singleton.1 last
      obtain ⟨-, -, rfl⟩ | ⟨-, since'⟩ := Change.since_concat.1 since'
      · exact (before there since).lt
      · exact absurd (tracks.mem_paths.2 since'.holds) fresh
  active p := by
    rw [Change.selects_concat]
    simp [MemoryVault.insert, tracks.active]

theorem Tracks.remove (tracks : v.Tracks history) (path : String) :
    (v.remove path).Tracks (history ++ [.remove path]) where
  nodup := by
    rw [paths_remove]
    exact tracks.nodup.filter _
  read p c := by
    rw [read?_remove, Change.leaves_concat]
    by_cases same : p = path
    · simp [same, Change.concerns]
    · have other : path ≠ p := fun h => same h.symm
      simp [same, other, Change.concerns, tracks.read]
  since p there := by
    rw [paths_remove, List.mem_filter, bne_iff_ne] at there
    obtain ⟨i, since⟩ := tracks.since p there.1
    exact ⟨i, Change.since_concat.2 (.inr ⟨fun same => there.2 (Change.remove.inj same).symm, since⟩)⟩
  ordered := by
    rw [paths_remove]
    refine (tracks.ordered.filter _).imp fun less i j since since' => ?_
    exact less i j (since.before fun _ => nofun) (since'.before fun _ => nofun)
  active p := by
    rw [Change.selects_concat]
    -- The selection is dropped with its own document only, and an absent path changes nothing.
    by_cases stored : path ∈ v.paths
    · simp only [MemoryVault.remove, if_pos (contains_iff.2 stored), beq_iff_eq]
      by_cases same : path = p
      · subst same
        simp
      · by_cases was : v.active? = some path
        · have now := tracks.active p
          rw [was] at now
          simp [was, same, ← now]
        · simp [was, same, tracks.active]
    · rw [remove_of_notMem stored, tracks.active]
      -- What is selected is held, so that it is not the absent path.
      have other : ∀ q, Change.Selects history q → path ≠ q := by
        rintro q selects rfl
        exact stored (tracks.mem_paths.2 selects.holds)
      simpa using other p

theorem Tracks.setActive (tracks : v.Tracks history) (path? : Option String) :
    (v.setActive path?).Tracks (history ++ [.setActive path?]) where
  nodup := tracks.nodup
  read p c := by
    have kept : (v.setActive path?).read? p = v.read? p := rfl
    simp [Change.leaves_concat, Change.concerns, kept, tracks.read]
  since p there := by
    obtain ⟨i, since⟩ := tracks.since p there
    exact ⟨i, Change.since_concat.2 (.inr ⟨nofun, since⟩)⟩
  ordered := by
    refine tracks.ordered.imp fun less i j since since' => ?_
    exact less i j (since.before fun _ => nofun) (since'.before fun _ => nofun)
  active p := by
    rw [Change.selects_concat, ← tracks.mem_paths, ← contains_iff]
    simp [MemoryVault.setActive, Option.filter_eq_some_iff]

theorem Tracks.change (tracks : v.Tracks history) (x : Change) : (v.change x).Tracks (history ++ [x]) := by
  cases x with
  | insert path content => exact tracks.insert path content
  | remove path => exact tracks.remove path
  | setActive path? => exact tracks.setActive path?

theorem tracks_run (name : String) (changes : List Change) : (run name changes).Tracks changes := by
  induction changes using List.reverseRecOn with
  | nil => exact tracks_empty name
  | append_singleton changes x ih =>
    rw [run, List.foldl_append]
    exact ih.change x

/-! ## What a vault answers after a history -/

/-- What a vault answers is told by its history. -/
structure Records (v : MemoryVault) (history : List Change) : Prop where
  /-- No path is stored twice. -/
  nodup : v.paths.Nodup
  /-- The stored paths are those that the history leaves. -/
  stored : ∀ path, path ∈ v.paths ↔ Change.Holds history path
  /-- Each stored path has been there since one insertion, -/
  since : ∀ path ∈ v.paths, ∃! i, Change.Since history path i
  /-- and these insertions are in the order of the paths. -/
  ordered : v.paths.Pairwise fun p q => ∀ i j, Change.Since history p i → Change.Since history q j → i < j
  /-- Reading a path gives the content of its latest insertion, -/
  read : ∀ path content, v.read ⟨path⟩ = .ok content ↔ Change.Leaves history path content
  /-- and is told as not found when the path is not there. -/
  missing : ∀ path,
    (∃ fault, v.read ⟨path⟩ = .error fault ∧ fault.kind = "NotFound") ↔ ¬ Change.Holds history path
  /-- A removal returns the content of what it removes, -/
  taken : ∀ path content, (v.take path).2 = some content ↔ Change.Leaves history path content
  /-- and nothing, in a vault that it leaves as it is, when there is nothing to remove. -/
  kept : ∀ path, ¬ Change.Holds history path → v.take path = (v, none)
  /-- The size is the number of paths. -/
  size : v.size = v.paths.length
  /-- The markdown documents are those of the paths whose extension says so, in the order of the paths. -/
  markdown : v.markdownFiles.map Document.path = v.paths.filter fun p => (Document.mk p).extension == "md"
  /-- The active document is the one that the history selects, -/
  active : ∀ path, v.activeFile = some ⟨path⟩ ↔ Change.Selects history path
  /-- which is stored. -/
  valid : ∀ path, v.activeFile = some ⟨path⟩ → path ∈ v.paths

/-- What is read from a vault is what is stored in it. -/
theorem read_eq_ok {path content : String} : v.read ⟨path⟩ = .ok content ↔ v.read? path = some content := by
  rw [read]
  cases v.read? path with
  | some c => simp
  | none => simp

/-- A reading that fails tells that the path is not stored. -/
theorem read_notFound {path : String} :
    (∃ fault, v.read ⟨path⟩ = .error fault ∧ fault.kind = "NotFound") ↔ path ∉ v.paths := by
  rw [mem_paths_iff, read]
  cases v.read? path with
  | some c => simp
  | none => simp [ReadFault.kind]

/-- Only one insertion is the one from which on a path has been there. -/
theorem Change.Since.unique {path : String} {i j : Nat} (here : Change.Since history path i)
    (there : Change.Since history path j) : i = j := by
  induction history using List.reverseRecOn with
  | nil => exact absurd here.lt (Nat.not_lt_zero i)
  | append_singleton history x ih =>
    obtain ⟨-, fresh, rfl⟩ | ⟨-, here⟩ := Change.since_concat.1 here
    · obtain ⟨-, -, rfl⟩ | ⟨-, there⟩ := Change.since_concat.1 there
      · rfl
      · exact absurd there.holds fresh
    · obtain ⟨-, fresh, -⟩ | ⟨-, there⟩ := Change.since_concat.1 there
      · exact absurd here.holds fresh
      · exact ih here there

theorem Tracks.records (tracks : v.Tracks history) : v.Records history where
  nodup := tracks.nodup
  stored path := tracks.mem_paths
  since path there :=
    let ⟨i, since⟩ := tracks.since path there
    ⟨i, since, fun _ other => other.unique since⟩
  ordered := tracks.ordered
  read path content := read_eq_ok.trans (tracks.read path content)
  missing path := read_notFound.trans (not_congr tracks.mem_paths)
  taken path content := tracks.read path content
  kept path gone := by
    have absent : path ∉ v.paths := fun there => gone (tracks.mem_paths.1 there)
    have nothing : v.read? path = none :=
      Option.eq_none_iff_forall_ne_some.2 fun c stored => absent (mem_paths_iff.2 ⟨c, stored⟩)
    rw [take, remove_of_notMem absent, nothing]
  size := by rw [size, paths, List.length_map]
  markdown := by
    rw [markdownFiles, List.filter_map, List.map_map]
    exact List.map_id _
  active path := by
    rw [← tracks.active]
    simp [activeFile, Option.map_eq_some_iff]
  valid path chosen := by
    rw [tracks.mem_paths]
    have selected : v.active? = some path := by simpa [activeFile, Option.map_eq_some_iff] using chosen
    exact ((tracks.active path).1 selected).holds

/-- **A vault in memory is an ordered map with a valid cursor.** After every sequence of insertions,
removals and choices of an active document, the vault answers what the sequence tells. -/
theorem run_records (name : String) (changes : List Change) : (run name changes).Records changes :=
  (tracks_run name changes).records

end MemoryVault

end VaultConsole
