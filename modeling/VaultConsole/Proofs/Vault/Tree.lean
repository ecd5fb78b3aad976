import VaultConsole.Proofs.Paths
import VaultConsole.Proofs.Walk

/-!
# Trees of texts

A directory whose entries are files and directories, with names and contents that are texts, has no more to it
than its visible files. `Entry.visibleFiles` lists them depth first in the order of names, `mem_visibleFiles`
says which they are, and `walk_plain` that a walk meets just these. As texts they are `Entry.documents`, which
leaves none of them out.
-/

namespace VaultConsole

namespace Entry

/-- Files and directories with names and contents that are texts, and no links. -/
structure Plain (e : Entry) : Prop where
  wellFormed : e.WellFormed
  noLink : ∀ l target, e.find? l ≠ some (.link target)
  nameText : ∀ l entries, e.find? l = some (.directory entries) →
    ∀ p ∈ entries, ∃ cs, FileName.ofChars cs = p.1
  contentText : ∀ l content, e.find? l = some (.file content) → ∃ s : String, s.toUTF8 = content

/-- Every file below an entry, with its path of names, but for those on whose path there is a hidden name:
depth first, and the entries of a directory in the order of their names. -/
def visibleFiles : Entry → List (List FileName × ByteArray)
  | .file content => [([], content)]
  | .link _ => []
  | .directory entries => (FileTree.inOrder entries).attach.flatMap fun ⟨(name, e), _⟩ =>
    if name.head? = some FileName.point then [] else e.visibleFiles.map fun f => (name :: f.1, f.2)
termination_by e => sizeOf e
decreasing_by
  have listed : (name, e) ∈ entries := (List.mergeSort_perm entries _).mem_iff.1 ‹_›
  have smaller := List.sizeOf_lt_of_mem listed
  simp only [Prod.mk.sizeOf_spec] at smaller
  simp only [Entry.directory.sizeOf_spec]
  omega

/-- A file as a path and a text, if it is one. -/
def document? (f : List FileName × ByteArray) : Option (String × String) :=
  (Path.ofNames? f.1).bind fun path => (Text.Utf8.decode f.2).toOption.map (path, ·)

/-- The visible files below an entry as paths and texts. -/
def documents (e : Entry) : List (String × String) := e.visibleFiles.filterMap document?

variable {entries : List (FileName × Entry)} {name : FileName} {e : Entry}

/-! ## Plain trees -/

/-- A directory is the topmost one of a tree. -/
theorem top (entries : List (FileName × Entry)) :
    (FileTree.mk entries).find? [] = some (.directory entries) := rfl

theorem lookup_eq_some (wf : (directory entries).WellFormed) :
    entries.lookup name = some e ↔ (name, e) ∈ entries :=
  FileTree.lookup_eq (t := ⟨entries⟩) wf (top entries)

/-- What is below an entry of a directory is below the directory. -/
theorem find?_cons (wf : (directory entries).WellFormed) (listed : (name, e) ∈ entries) (l : Location) :
    (directory entries).find? (name :: l) = e.find? l := by
  rw [find?, (lookup_eq_some wf).2 listed]
  rfl

/-- What is below what is below. -/
theorem find?_append (e : Entry) (l names : Location) :
    e.find? (l ++ names) = (e.find? l).bind fun found => found.find? names := by
  induction l generalizing e with
  | nil => simp [find?]
  | cons name l ih =>
    cases e with
    | file content => rfl
    | link target => rfl
    | directory entries =>
      rw [List.cons_append, find?, find?]
      cases entries.lookup name with
      | none => rfl
      | some e => exact ih e

theorem WellFormed.below (wf : (directory entries).WellFormed) (listed : (name, e) ∈ entries) :
    e.WellFormed where
  isName l inner h := wf.isName (name :: l) inner ((find?_cons wf listed l).trans h)
  nodup l inner h := wf.nodup (name :: l) inner ((find?_cons wf listed l).trans h)

theorem Plain.below (plain : (directory entries).Plain) (listed : (name, e) ∈ entries) : e.Plain where
  wellFormed := plain.wellFormed.below listed
  noLink l target h := plain.noLink (name :: l) target ((find?_cons plain.wellFormed listed l).trans h)
  nameText l inner h := plain.nameText (name :: l) inner ((find?_cons plain.wellFormed listed l).trans h)
  contentText l content h :=
    plain.contentText (name :: l) content ((find?_cons plain.wellFormed listed l).trans h)

theorem plain_file (s : String) : (file s.toUTF8).Plain := by
  refine ⟨wellFormed_file _, ?_, fun _ _ h => absurd h find?_file, ?_⟩
  · intro l target h
    cases l <;> cases h
  · intro l content h
    cases l with
    | nil => exact ⟨s, by cases h; rfl⟩
    | cons name l => cases h

/-- A directory is plain if its entries are and their names are texts. -/
theorem plain_directory (isName : ∀ p ∈ entries, p.1.IsName) (nodup : (entries.map Prod.fst).Nodup)
    (isText : ∀ p ∈ entries, ∃ cs, FileName.ofChars cs = p.1) (below : ∀ p ∈ entries, p.2.Plain) :
    (directory entries).Plain := by
  have wf := wellFormed_directory isName nodup fun p listed => (below p listed).wellFormed
  -- Below the directory every path begins with a listed name and goes on in its entry.
  have within : ∀ name l found, (directory entries).find? (name :: l) = some found →
      ∃ e, (name, e) ∈ entries ∧ e.find? l = some found := by
    intro name l found h
    obtain ⟨e, lookup, inside⟩ := Option.bind_eq_some_iff.1 h
    exact ⟨e, (lookup_eq_some wf).1 lookup, inside⟩
  refine ⟨wf, ?_, ?_, ?_⟩
  · intro l target h
    cases l with
    | nil => cases h
    | cons name l =>
      obtain ⟨e, listed, inside⟩ := within name l _ h
      exact (below _ listed).noLink l target inside
  · intro l inner h
    cases l with
    | nil =>
      cases h
      exact isText
    | cons name l =>
      obtain ⟨e, listed, inside⟩ := within name l _ h
      exact (below _ listed).nameText l inner inside
  · intro l content h
    cases l with
    | nil => cases h
    | cons name l =>
      obtain ⟨e, listed, inside⟩ := within name l _ h
      exact (below _ listed).contentText l content inside

/-! ## Visible files -/

theorem visibleFiles_file (content : ByteArray) : (file content).visibleFiles = [([], content)] := by
  rw [visibleFiles]

theorem visibleFiles_link (target : List UInt8) : (link target).visibleFiles = [] := by
  rw [visibleFiles]

/-- The visible files below an entry of a directory, with the name of the entry. -/
def filesAt (p : FileName × Entry) : List (List FileName × ByteArray) :=
  if p.1.head? = some FileName.point then [] else p.2.visibleFiles.map fun f => (p.1 :: f.1, f.2)

theorem visibleFiles_directory (entries : List (FileName × Entry)) :
    (directory entries).visibleFiles = (FileTree.inOrder entries).flatMap filesAt := by
  rw [visibleFiles]
  rw [List.flatMap_subtype (g := filesAt), List.unattach_attach]
  intro p listed
  rfl

theorem mem_filesAt {p : FileName × Entry} {names : List FileName} {content : ByteArray} :
    (names, content) ∈ filesAt p ↔
      p.1.head? ≠ some FileName.point ∧ ∃ rest, names = p.1 :: rest ∧ (rest, content) ∈ p.2.visibleFiles := by
  unfold filesAt
  split
  · rename_i hidden
    simp [hidden]
  · rename_i visible
    simp only [List.mem_map, Prod.mk.injEq, ne_eq, visible, not_false_eq_true, true_and]
    constructor
    · rintro ⟨f, member, rfl, rfl⟩
      exact ⟨f.1, rfl, member⟩
    · rintro ⟨rest, rfl, member⟩
      exact ⟨(rest, content), member, rfl, rfl⟩

/-- The visible files are the files on whose path no name begins with a point. -/
theorem mem_visibleFiles (wf : e.WellFormed) {names : List FileName} {content : ByteArray} :
    (names, content) ∈ e.visibleFiles ↔
      e.find? names = some (.file content) ∧ ∀ name ∈ names, name.head? ≠ some FileName.point := by
  induction names generalizing e with
  | nil =>
    cases e with
    | file content' => simp [visibleFiles_file, find?, eq_comm]
    | link target => simp [visibleFiles_link, find?]
    | directory entries => simp [visibleFiles_directory, mem_filesAt, find?]
  | cons name names ih =>
    cases e with
    | file content' => simp [visibleFiles_file, find?]
    | link target => simp [visibleFiles_link, find?]
    | directory entries =>
      rw [visibleFiles_directory, List.mem_flatMap]
      constructor
      · rintro ⟨p, met, member⟩
        -- The first name is that of a listed entry; the rest is a visible file of it.
        obtain ⟨visible, rest, same, member⟩ := mem_filesAt.1 member
        obtain ⟨rfl, rfl⟩ := List.cons.inj same
        have listed : p ∈ entries := (List.mergeSort_perm entries _).mem_iff.1 met
        obtain ⟨found, below⟩ := (ih (wf.below listed)).1 member
        refine ⟨(find?_cons wf listed names).trans found, fun name' there => ?_⟩
        obtain rfl | there := List.mem_cons.1 there
        · exact visible
        · exact below name' there
      · rintro ⟨found, visible⟩
        obtain ⟨e, lookup, inside⟩ := Option.bind_eq_some_iff.1 found
        have listed : (name, e) ∈ entries := (lookup_eq_some wf).1 lookup
        have below := (ih (wf.below listed)).2 ⟨inside, fun n h => visible n (List.mem_cons_of_mem name h)⟩
        exact ⟨(name, e), (List.mergeSort_perm entries _).mem_iff.2 listed,
          mem_filesAt.2 ⟨visible name List.mem_cons_self, names, rfl, below⟩⟩

/-- The visible files are listed in the strict order of their paths. -/
theorem visibleFiles_pairwise (wf : e.WellFormed) : e.visibleFiles.Pairwise fun f g => f.1 < g.1 := by
  induction e using visibleFiles.induct with
  | case1 content =>
    rw [visibleFiles_file]
    exact List.pairwise_singleton _ _
  | case2 target =>
    rw [visibleFiles_link]
    exact .nil
  | case3 entries ih =>
    rw [visibleFiles_directory, List.pairwise_flatMap]
    constructor
    · intro p met
      have listed : p ∈ entries := (List.mergeSort_perm entries _).mem_iff.1 met
      unfold filesAt
      split
      · exact .nil
      · rw [List.pairwise_map]
        exact (ih p.1 p.2 met (wf.below listed)).imp fun less => List.cons_lt_cons_iff.2 (.inr ⟨rfl, less⟩)
    · refine (FileTree.inOrder_pairwise (t := ⟨entries⟩) wf (top entries)).imp ?_
      rintro p q less ⟨names, content⟩ member ⟨names', content'⟩ member'
      obtain ⟨-, rest, rfl, -⟩ := mem_filesAt.1 member
      obtain ⟨-, rest', rfl, -⟩ := mem_filesAt.1 member'
      exact List.cons_lt_cons_iff.2 (.inl less)

end Entry

/-- The files that a walk through plain entries meets are the visible ones, whatever else is in the tree. -/
theorem FileTree.walk_plain (t : FileTree) (links : Nat) (inside : List Ancestor) (path : List FileName)
    (here : Location) (entries : List (FileName × Entry)) (plain : (Entry.directory entries).Plain) :
    (t.walk links inside path here entries).filterMap Visit.file? =
      (Entry.directory entries).visibleFiles.map fun f => path ++ f.1 := by
  rw [walk_eq, Entry.visibleFiles_directory, List.filterMap_flatMap, List.map_flatMap]
  refine List.flatMap_congr fun p met => ?_
  obtain ⟨name, e⟩ := p
  have listed : (name, e) ∈ entries := (List.mergeSort_perm entries _).mem_iff.1 met
  obtain ⟨cs, rfl⟩ := plain.nameText [] entries rfl (name, e) listed
  have hidden : (FileName.ofChars cs).isHidden = true ↔
      (FileName.ofChars cs).head? = some FileName.point := by
    rw [FileName.isHidden_ofChars, beq_iff_eq]
  rw [Entry.filesAt]
  cases e with
  | file content =>
    rw [meet]
    by_cases starts : (FileName.ofChars cs).head? = some FileName.point
    · simp [starts, hidden.2 starts]
    · simp [starts, mt hidden.1 starts, Entry.visibleFiles_file, Visit.file?]
  | link target => exact absurd (Entry.find?_cons plain.wellFormed listed []) (plain.noLink _ target)
  | directory below =>
    have smaller : sizeOf below < sizeOf entries := sizeOf_directory_lt met
    have rest := t.walk_plain links (⟨here ++ [FileName.ofChars cs], path ++ [FileName.ofChars cs]⟩ :: inside)
      (path ++ [FileName.ofChars cs]) (here ++ [FileName.ofChars cs]) below (plain.below listed)
    rw [meet]
    by_cases starts : (FileName.ofChars cs).head? = some FileName.point
    · simp [starts, hidden.2 starts]
    · simp [starts, mt hidden.1 starts, rest]
termination_by sizeOf entries

/-! ## Documents -/

namespace Entry

theorem document?_eq_some {f : List FileName × ByteArray} {d : String × String} (h : document? f = some d) :
    Path.ofNames? f.1 = some d.1 ∧ d.2.toUTF8 = f.2 := by
  obtain ⟨path, spelled, h⟩ := Option.bind_eq_some_iff.1 h
  obtain ⟨text, read, rfl⟩ := Option.map_eq_some_iff.1 h
  refine ⟨spelled, Text.Utf8.decode_eq_ok.1 ?_⟩
  cases decoded : Text.Utf8.decode f.2 with
  | error fault =>
    rw [decoded] at read
    cases read
  | ok s =>
    rw [decoded] at read
    exact congrArg Except.ok (Option.some.inj read)

/-- The names on the way to what is below a plain entry are texts. -/
theorem Plain.isText {e : Entry} (plain : e.Plain) {names : List FileName} {found : Entry}
    (h : e.find? names = some found) : ∀ name ∈ names, name.IsName ∧ ∃ cs, FileName.ofChars cs = name := by
  induction names generalizing e with
  | nil => nofun
  | cons name names ih =>
    cases e with
    | file content => cases h
    | link target => cases h
    | directory entries =>
      obtain ⟨e, lookup, inside⟩ := Option.bind_eq_some_iff.1 h
      have listed : (name, e) ∈ entries := (lookup_eq_some plain.wellFormed).1 lookup
      intro name' there
      obtain rfl | there := List.mem_cons.1 there
      · exact ⟨plain.wellFormed.isName [] entries rfl _ listed, plain.nameText [] entries rfl _ listed⟩
      · exact ih (plain.below listed) inside name' there

/-- Every visible file below a plain entry is a document. -/
theorem Plain.isSome_document? {e : Entry} (plain : e.Plain) {f : List FileName × ByteArray}
    (visible : f ∈ e.visibleFiles) : (document? f).isSome := by
  obtain ⟨names, content⟩ := f
  obtain ⟨found, -⟩ := (mem_visibleFiles plain.wellFormed).1 visible
  obtain ⟨path, spelled⟩ := Option.isSome_iff_exists.1
    (Path.isSome_ofNames? fun name there => (plain.isText found name there).2)
  obtain ⟨text, bytes⟩ := plain.contentText names content found
  simp [document?, spelled, Text.Utf8.decode_eq_ok.2 bytes, Except.toOption]

end Entry

end VaultConsole
