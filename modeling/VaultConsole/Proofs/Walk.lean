import Mathlib.Data.List.Pairwise
import VaultConsole.Files.Walk
import VaultConsole.Proofs.Resolution

/-!
# The files of a walk

`Reached` says, one name at a time, what a walk goes down to: visible names, each leading to a directory
that a link does not bring back to one of those above, and at last a file. `walk_finds` says that the files
that a walk meets are exactly these, in the order of their paths.
-/

namespace VaultConsole

namespace FileTree

variable {t : FileTree}

/-- A path of names from a directory, which is among those that the walk is in, down to a file. -/
inductive Reached (t : FileTree) : Nat → List Location → Location → List FileName → Prop where
  | last {links left : Nat} {inside : List Location} {here found : Location} {name : FileName}
      {content : ByteArray} (named : name.IsName) (visible : name.isHidden = false)
      (leads : t.resolve links here [name] = .ok (found, left))
      (isFile : t.find? found = some (.file content)) : Reached t links inside here [name]
  | down {links left : Nat} {inside : List Location} {here found : Location} {name : FileName}
      {entries : List (FileName × Entry)} {names : List FileName} (named : name.IsName)
      (visible : name.isHidden = false) (leads : t.resolve links here [name] = .ok (found, left))
      (isDirectory : t.find? found = some (.directory entries))
      (noLoop : t.IsLink here name → found ∉ inside)
      (rest : Reached t left (found :: inside) found names) :
      Reached t links inside here (name :: names)

/-- What a walk meets at an entry. -/
def meet (t : FileTree) (links : Nat) (inside : List Ancestor) (path : List FileName) (here : Location)
    (name : FileName) : Entry → List Visit
  | .file _ => if name.isHidden then [] else [.file path]
  | .directory below =>
    if name.isHidden then []
    else t.walk links (⟨here ++ [name], path⟩ :: inside) path (here ++ [name]) below
  | .link target =>
    match links with
    | 0 => [.broken path .linkLoop]
    | links + 1 =>
      match t.follow links here target with
      | .error fault => [.broken path fault]
      | .ok (found, left) =>
        match t.find? found with
        | some (.directory below) =>
          match inside.find? (·.location == found) with
          | some a => [.loop path a.path]
          | none =>
            if name.isHidden then []
            else t.walk left (⟨found, path⟩ :: inside) path found below
        | some (.file _) => if name.isHidden then [] else [.file path]
        | _ => []

/-- A walk meets the entries of a directory one after the other. -/
theorem walk_eq (links : Nat) (inside : List Ancestor) (path : List FileName) (here : Location)
    (entries : List (FileName × Entry)) :
    t.walk links inside path here entries =
      (inOrder entries).flatMap fun p => t.meet links inside (path ++ [p.1]) here p.1 p.2 := by
  rw [walk]
  rw [List.flatMap_subtype (g := fun p => t.meet links inside (path ++ [p.1]) here p.1 p.2),
    List.unattach_attach]
  intro p met
  obtain ⟨name, entry⟩ := p
  cases entry with
  | file content => rfl
  | directory below => rfl
  | link target =>
    cases links with
    | zero => rfl
    | succ links =>
      simp only [meet]
      split
      · rename_i fault h
        rw [h]
      · rename_i found left h
        rewrite [h]
        rfl

/-- A walk goes on only from where a visible name leads. -/
theorem Reached.leads {links : Nat} {inside : List Location} {here : Location} {name : FileName}
    {names : List FileName} (h : Reached t links inside here (name :: names)) :
    name.IsName ∧ name.isHidden = false ∧
      ∃ found left, t.resolve links here [name] = .ok (found, left) ∧
        ((∃ content, t.find? found = some (.file content)) ∨
          ∃ entries, t.find? found = some (.directory entries)) := by
  cases h with
  | last named visible leads isFile => exact ⟨named, visible, _, _, leads, .inl ⟨_, isFile⟩⟩
  | down named visible leads isDirectory noLoop rest =>
    exact ⟨named, visible, _, _, leads, .inr ⟨_, isDirectory⟩⟩

theorem not_reached_cons {links : Nat} {inside : List Location} {here : Location} {name : FileName}
    (nothing : ∀ found left, t.resolve links here [name] = .ok (found, left) →
      (∀ content, t.find? found ≠ some (.file content)) ∧
        ∀ entries, t.find? found ≠ some (.directory entries)) (names : List FileName) :
    ¬ Reached t links inside here (name :: names) := by
  intro h
  obtain ⟨-, -, found, left, leads, ⟨content, isFile⟩ | ⟨entries, isDirectory⟩⟩ := h.leads
  · exact (nothing found left leads).1 content isFile
  · exact (nothing found left leads).2 entries isDirectory

/-- A path ends where a name leads to a file. -/
theorem reached_cons_of_file {links left : Nat} {inside : List Location} {here found : Location}
    {name : FileName} {content : ByteArray} (named : name.IsName)
    (leads : t.resolve links here [name] = .ok (found, left)) (isFile : t.find? found = some (.file content))
    (names : List FileName) :
    Reached t links inside here (name :: names) ↔ name.isHidden = false ∧ names = [] := by
  constructor
  · intro h
    cases h with
    | last _ visible _ _ => exact ⟨visible, rfl⟩
    | down _ visible leads' isDirectory noLoop rest =>
      rw [leads] at leads'
      cases leads'
      rw [isFile] at isDirectory
      cases isDirectory
  · rintro ⟨visible, rfl⟩
    exact .last named visible leads isFile

/-- A path goes on where a name leads to a directory. -/
theorem reached_cons_of_directory {links left : Nat} {inside : List Location}
    {here found : Location} {name : FileName} {entries : List (FileName × Entry)} (named : name.IsName)
    (leads : t.resolve links here [name] = .ok (found, left))
    (isDirectory : t.find? found = some (.directory entries)) (names : List FileName) :
    Reached t links inside here (name :: names) ↔
      name.isHidden = false ∧ (t.IsLink here name → found ∉ inside) ∧
        Reached t left (found :: inside) found names := by
  constructor
  · intro h
    cases h with
    | last _ _ leads' isFile =>
      rw [leads] at leads'
      cases leads'
      rw [isDirectory] at isFile
      cases isFile
    | down _ visible leads' _ noLoop rest =>
      rw [leads] at leads'
      cases leads'
      exact ⟨visible, noLoop, rest⟩
  · rintro ⟨visible, noLoop, rest⟩
    exact .down named visible leads isDirectory noLoop rest

/-- The files that visits find below a path are those of a predicate, in order. -/
def Finds (visits : List Visit) (path : List FileName) (P : List FileName → Prop) : Prop :=
  ∃ found : List (List FileName), visits.filterMap Visit.file? = found.map (path ++ ·) ∧
    found.Pairwise (· < ·) ∧ ∀ names, names ∈ found ↔ P names

/-! ## One entry -/

theorem finds_nil {visits : List Visit} {path : List FileName} {P : List FileName → Prop}
    (empty : visits.filterMap Visit.file? = []) (h : ∀ names, ¬ P names) : Finds visits path P :=
  ⟨[], empty, .nil, fun names => by simp [h names]⟩

theorem finds_file {path : List FileName} {P : List FileName → Prop} (h : ∀ names, P names ↔ names = []) :
    Finds [.file path] path P :=
  ⟨[[]], by simp [Visit.file?], List.pairwise_singleton _ _, fun names => by simp [h names]⟩

theorem Finds.congr {visits : List Visit} {path : List FileName} {P Q : List FileName → Prop}
    (h : Finds visits path P) (same : ∀ names, Q names ↔ P names) : Finds visits path Q := by
  obtain ⟨found, files, sorted, all⟩ := h
  exact ⟨found, files, sorted, fun names => (all names).trans (same names).symm⟩

section Entries

variable {links left : Nat} {inside : List Ancestor} {path : List FileName} {here found : Location}
  {name : FileName} {visits : List Visit}

/-- A walk finds nothing at a hidden name, whatever it leads to. -/
theorem file?_meet_of_isHidden (hidden : name.isHidden = true) (e : Entry) :
    (t.meet links inside path here name e).filterMap Visit.file? = [] := by
  cases e with
  | file content => simp [meet, hidden]
  | directory below => simp [meet, hidden]
  | link target =>
    -- A link may still be told to be broken, or to lead back, which is no file.
    simp only [meet, hidden, if_true]
    split
    · rfl
    · split
      · rfl
      · split
        · split <;> rfl
        · rfl
        · rfl

/-- Where a visible name leads to a file, that is what is found. -/
theorem finds_at_file {inside : List Location} {content : ByteArray} (named : name.IsName)
    (visible : name.isHidden = false) (leads : t.resolve links here [name] = .ok (found, left))
    (isFile : t.find? found = some (.file content)) :
    Finds [.file path] path fun names => Reached t links inside here (name :: names) := by
  refine finds_file fun names => ?_
  rw [reached_cons_of_file named leads isFile]
  simp [visible]

/-- Where it leads to a directory, and no link brings back to one of those above, what is found is what is
found there. -/
theorem finds_at_directory {inside : List Location} {below : List (FileName × Entry)} (named : name.IsName)
    (visible : name.isHidden = false) (leads : t.resolve links here [name] = .ok (found, left))
    (isDirectory : t.find? found = some (.directory below)) (away : t.IsLink here name → found ∉ inside)
    (finds : Finds visits path (Reached t left (found :: inside) found)) :
    Finds visits path fun names => Reached t links inside here (name :: names) := by
  refine finds.congr fun names => ?_
  rw [reached_cons_of_directory named leads isDirectory]
  exact ⟨fun h => h.2.2, fun rest => ⟨visible, away, rest⟩⟩

/-- The directories that the walk is in are looked through by where they are. -/
theorem mem_locations_iff : found ∈ inside.map Ancestor.location ↔
    (inside.find? (·.location == found)).isSome = true := by
  simp [List.find?_isSome]

/-- At a visible link a walk finds what is found where the link leads. -/
theorem meet_link_finds {entries : List (FileName × Entry)} {target : List UInt8}
    (isDirectory : t.find? here = some (.directory entries)) (named : name.IsName)
    (visible : name.isHidden = false) (lookup : entries.lookup name = some (.link target))
    (ih : ∀ left found below inside, left < links → t.find? found = some (.directory below) →
      Finds (t.walk left inside path found below) path
        (Reached t left (inside.map Ancestor.location) found)) :
    Finds (t.meet links inside path here name (.link target)) path
      fun names => Reached t links (inside.map Ancestor.location) here (name :: names) := by
  have isLink : t.IsLink here name := ⟨entries, target, isDirectory, lookup⟩
  have step := resolve_name isDirectory named links
  simp only [lookup] at step
  cases links with
  | zero =>
    refine finds_nil rfl (not_reached_cons fun found left leads => ?_)
    rw [step] at leads
    cases leads
  | succ links =>
    cases follow : t.follow links here target with
    | error fault =>
      simp only [follow] at step
      simp only [meet, follow]
      refine finds_nil rfl (not_reached_cons fun found left leads => ?_)
      rw [step] at leads
      cases leads
    | ok r =>
      obtain ⟨found, left⟩ := r
      -- Each link that is followed is one fewer for what comes after it.
      have fewer : left < links + 1 := Nat.lt_succ_of_le (follow_links_le follow)
      simp only [follow] at step
      simp only [meet, follow]
      -- What stands at the end of a link is a file or a directory; otherwise nothing is reached.
      have nothing : (∀ content, t.find? found ≠ some (.file content)) →
          (∀ below, t.find? found ≠ some (.directory below)) →
          Finds [] path fun names => Reached t (links + 1) (inside.map Ancestor.location) here (name :: names) := by
        intro noFile noDirectory
        refine finds_nil rfl (not_reached_cons fun found' left' leads => ?_)
        rw [step] at leads
        cases leads
        exact ⟨noFile, noDirectory⟩
      cases atEnd : t.find? found with
      | none => exact nothing (by simp [atEnd]) (by simp [atEnd])
      | some e =>
        cases e with
        | file content =>
          simp only [visible, Bool.false_eq_true, if_false]
          exact finds_at_file named visible step atEnd
        | directory below =>
          cases loop : inside.find? (·.location == found) with
          | some a =>
            refine finds_nil rfl fun names => ?_
            rw [reached_cons_of_directory named step atEnd]
            exact fun h => h.2.1 isLink (mem_locations_iff.2 (by rw [loop]; rfl))
          | none =>
            have away : found ∉ inside.map Ancestor.location := by
              rw [mem_locations_iff, loop]
              exact Bool.false_ne_true
            simp only [visible, Bool.false_eq_true, if_false]
            exact finds_at_directory named visible step atEnd (fun _ => away) (ih left _ below _ fewer atEnd)
        | link other => exact nothing (by simp [atEnd]) (by simp [atEnd])

/-- At an entry a walk finds the files whose paths begin with its name, if it does so in the directories
below. -/
theorem meet_finds (wf : t.WellFormed) {entries : List (FileName × Entry)}
    (isDirectory : t.find? here = some (.directory entries)) {e : Entry} (met : (name, e) ∈ entries)
    (ih : ∀ left found below inside, left < links ∨ (left = links ∧ sizeOf below < sizeOf entries) →
      t.find? found = some (.directory below) →
      Finds (t.walk left inside path found below) path
        (Reached t left (inside.map Ancestor.location) found)) :
    Finds (t.meet links inside path here name e) path
      fun names => Reached t links (inside.map Ancestor.location) here (name :: names) := by
  have lookup : entries.lookup name = some e := (lookup_eq wf isDirectory).2 met
  have named : name.IsName := wf.isName here entries isDirectory _ met
  cases hidden : name.isHidden with
  | true =>
    refine finds_nil (file?_meet_of_isHidden hidden e) fun names h => ?_
    exact Bool.false_ne_true (h.leads.2.1.symm.trans hidden)
  | false =>
    have step := resolve_name isDirectory named links
    have entry : t.find? (here ++ [name]) = some e := by rw [find?_append_name isDirectory, lookup]
    simp only [lookup] at step
    cases e with
    | file content =>
      simp only [meet, hidden, Bool.false_eq_true, if_false]
      exact finds_at_file named hidden step entry
    | directory below =>
      -- A directory is no link, so that it cannot lead back.
      have noLink : ¬ t.IsLink here name := by
        rintro ⟨entries', target, isDirectory', isLink⟩
        obtain rfl : entries = entries' := by simpa [isDirectory] using isDirectory'
        rw [lookup] at isLink
        cases isLink
      have smaller : sizeOf below < sizeOf entries := by
        have := List.sizeOf_lt_of_mem met
        simp only [Prod.mk.sizeOf_spec, Entry.directory.sizeOf_spec] at this
        omega
      simp only [meet, hidden, Bool.false_eq_true, if_false]
      exact finds_at_directory named hidden step entry (fun isLink => absurd isLink noLink)
        (ih links _ below _ (.inr ⟨rfl, smaller⟩) entry)
    | link target =>
      exact meet_link_finds isDirectory named hidden lookup fun left found below inside fewer =>
        ih left found below inside (.inl fewer)

end Entries

/-! ## Whole walks -/

section Order

variable {visits visits' : List Visit} {path : List FileName} {P Q : List FileName → Prop}

/-- What is found below a name is found below the path before it, by paths that begin with the name. -/
theorem Finds.below {name : FileName} (h : Finds visits (path ++ [name]) fun rest => P (name :: rest)) :
    Finds visits path fun names => ∃ rest, names = name :: rest ∧ P (name :: rest) := by
  obtain ⟨found, files, sorted, mem⟩ := h
  refine ⟨found.map (name :: ·), ?_, ?_, fun names => ?_⟩
  · rw [files, List.map_map]
    simp
  · rw [List.pairwise_map]
    exact sorted.imp fun less => List.cons_lt_cons_iff.2 (.inr ⟨rfl, less⟩)
  · rw [List.mem_map]
    constructor
    · rintro ⟨rest, met, rfl⟩
      exact ⟨rest, rfl, (mem rest).1 met⟩
    · rintro ⟨rest, rfl, holds⟩
      exact ⟨rest, (mem rest).2 holds, rfl⟩

/-- What is found by one visit after another is what either of them finds, if it stands in this order. -/
theorem Finds.append (h : Finds visits path P) (h' : Finds visits' path Q)
    (before : ∀ names names', P names → Q names' → names < names') :
    Finds (visits ++ visits') path fun names => P names ∨ Q names := by
  obtain ⟨found, files, sorted, mem⟩ := h
  obtain ⟨found', files', sorted', mem'⟩ := h'
  refine ⟨found ++ found', ?_, ?_, fun names => ?_⟩
  · rw [List.filterMap_append, files, files', List.map_append]
  · rw [List.pairwise_append]
    exact ⟨sorted, sorted', fun names met names' met' =>
      before names names' ((mem names).1 met) ((mem' names').1 met')⟩
  · rw [List.mem_append, mem, mem']

end Order

/-- What is found at entries, one after the other in the order of their names, is what is found at each. -/
theorem finds_entries {visits : FileName × Entry → List Visit} {path : List FileName}
    {P : List FileName → Prop} {entries : List (FileName × Entry)}
    (ordered : entries.Pairwise fun p q => p.1 < q.1)
    (each : ∀ p ∈ entries, Finds (visits p) (path ++ [p.1]) fun names => P (p.1 :: names)) :
    Finds (entries.flatMap visits) path fun names =>
      ∃ name ∈ entries.map Prod.fst, ∃ rest, names = name :: rest ∧ P (name :: rest) := by
  induction entries with
  | nil => exact finds_nil rfl (by simp)
  | cons p entries ih =>
    obtain ⟨above, ordered⟩ := List.pairwise_cons.1 ordered
    have first := (each p List.mem_cons_self).below
    have later := ih ordered fun q member => each q (List.mem_cons_of_mem p member)
    rw [List.flatMap_cons]
    refine (first.append later ?_).congr fun names => ?_
    · -- Paths are compared by their first names, and these are in order.
      rintro names names' ⟨rest, rfl, -⟩ ⟨name, member, rest', rfl, -⟩
      obtain ⟨q, listed, rfl⟩ := List.mem_map.1 member
      exact List.cons_lt_cons_iff.2 (.inl (above q listed))
    · simp only [List.map_cons, List.mem_cons, exists_eq_or_imp]

/-- What is found at the entries of a directory, one after the other in the order of their names, is what is
found in the directory. -/
theorem finds_flatMap {visits : FileName × Entry → List Visit} {path : List FileName}
    {P : List FileName → Prop} (refuses : ¬ P []) {entries : List (FileName × Entry)}
    (ordered : entries.Pairwise fun p q => p.1 < q.1)
    (each : ∀ p ∈ entries, Finds (visits p) (path ++ [p.1]) fun names => P (p.1 :: names))
    (all : ∀ name names, P (name :: names) → name ∈ entries.map Prod.fst) :
    Finds (entries.flatMap visits) path P := by
  refine (finds_entries ordered each).congr fun names => ⟨fun holds => ?_, ?_⟩
  · cases names with
    | nil => exact absurd holds refuses
    | cons name rest => exact ⟨name, all name rest holds, rest, rfl, holds⟩
  · rintro ⟨name, -, rest, rfl, holds⟩
    exact holds

/-- The entries of a directory of a well formed tree are walked in the strict order of their names. -/
theorem inOrder_pairwise (wf : t.WellFormed) {here : Location}
    {entries : List (FileName × Entry)} (isDirectory : t.find? here = some (.directory entries)) :
    (inOrder entries).Pairwise fun p q => p.1 < q.1 := by
  have sorted : (inOrder entries).Pairwise fun p q => p.1 ≤ q.1 := by
    have := @List.pairwise_mergeSort _ (fun p q : FileName × Entry => decide (p.1 ≤ q.1))
      (by intro p q r; simpa using List.le_trans) (by intro p q; simpa using List.le_total p.1 q.1)
      entries
    simpa [inOrder] using this
  have distinct : (inOrder entries).Pairwise fun p q => p.1 ≠ q.1 := by
    have nodup := wf.nodup here entries isDirectory
    have perm := (List.mergeSort_perm entries fun p q => decide (p.1 ≤ q.1)).map Prod.fst
    exact List.pairwise_map.1 (perm.nodup_iff.2 nodup)
  exact (sorted.and distinct).imp fun h => (List.le_iff_lt_or_eq.1 h.1).resolve_right h.2

/-- A name that leads somewhere is that of an entry. -/
theorem mem_entries_of_resolve {links : Nat} {here found : Location} {left : Nat}
    {entries : List (FileName × Entry)} (isDirectory : t.find? here = some (.directory entries))
    {name : FileName} (isName : name.IsName) (h : t.resolve links here [name] = .ok (found, left)) :
    name ∈ entries.map Prod.fst := by
  rw [resolve_name isDirectory isName links] at h
  cases lookup : entries.lookup name with
  | none =>
    rw [lookup] at h
    cases h
  | some e =>
    obtain ⟨before, after, rfl, -⟩ := List.lookup_eq_some_iff.1 lookup
    simp

/-- The files that a walk finds in a directory are those that are reached from it, in the order of their
paths. -/
theorem walk_finds (wf : t.WellFormed) (links : Nat) (inside : List Ancestor) (path : List FileName)
    (here : Location) (entries : List (FileName × Entry))
    (isDirectory : t.find? here = some (.directory entries)) :
    Finds (t.walk links inside path here entries) path
      (Reached t links (inside.map Ancestor.location) here) := by
  rw [walk_eq]
  refine finds_flatMap nofun (inOrder_pairwise wf isDirectory) (fun p met => ?_) (fun name names h => ?_)
  · have met : p ∈ entries := (List.mergeSort_perm entries _).mem_iff.1 met
    exact meet_finds wf isDirectory met fun left found below inside smaller isBelow =>
      walk_finds wf left inside (path ++ [p.1]) found below isBelow
  · obtain ⟨named, -, found, left, leads, -⟩ := h.leads
    have listed := mem_entries_of_resolve isDirectory named leads
    exact (((List.mergeSort_perm entries _).map Prod.fst).mem_iff).2 listed
termination_by (links, sizeOf entries)
decreasing_by
  obtain fewer | ⟨rfl, smaller⟩ := smaller
  · exact Prod.Lex.left _ _ fewer
  · exact Prod.Lex.right _ smaller

end FileTree

end VaultConsole
