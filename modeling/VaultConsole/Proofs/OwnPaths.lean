import VaultConsole.Proofs.Listing
import VaultConsole.Proofs.Lookup
import VaultConsole.Proofs.PathParts
import VaultConsole.Proofs.Vault.History

/-!
# Documents under their own paths

A path names a document last of all, after the basenames of all documents. So a document is found under its
own path unless it lies at the root and is shadowed there: its path is the basename of another document, or an
earlier document has the same basename (`IsShadowed`). That holds for markdown documents with a path for each
(`IsListing`), which is what every vault lists (`isListing_run`, `isListing_markdownFiles`).
-/

namespace VaultConsole

namespace Lookup

/-- A list of markdown documents with a path for each. -/
structure IsListing (documents : List Document) : Prop where
  distinct : (documents.map Document.path).Nodup
  markdown : ∀ d ∈ documents, d.isMarkdown = true

/-- Whether a document is in no folder, and its path is the basename of a document or its basename that of an
earlier one. -/
def IsShadowed (documents : List Document) (d : Document) : Prop :=
  '/' ∉ d.path.toList ∧ ((∃ e ∈ documents, e.basename = d.path) ∨
    ∃ before after, documents = before ++ d :: after ∧ ∃ e ∈ before, e.basename = d.basename)

variable {documents : List Document} {d e : Document}

/-- Documents with the same path are the same. -/
theorem eq_of_path (h : d.path = e.path) : d = e := by
  cases d
  cases e
  exact congrArg Document.mk h

/-- The first document with a basename is one before which no document has it. -/
theorem find?_basename_eq_some {basename : String} :
    documents.find? (·.basename == basename) = some d ↔ d.basename = basename ∧
      ∃ before after, documents = before ++ d :: after ∧ ∀ e ∈ before, e.basename ≠ basename := by
  simp only [List.find?_eq_some_iff_append, beq_iff_eq, Bool.not_eq_true', beq_eq_false_iff_ne]

theorem find?_basename_eq_none {basename : String} :
    documents.find? (·.basename == basename) = none ↔ ∀ e ∈ documents, e.basename ≠ basename := by
  simp only [List.find?_eq_none, beq_iff_eq, ne_eq]

/-- A document stands in one place of a listing. -/
theorem IsListing.before_unique (listing : IsListing documents) {before after before' after' : List Document}
    (split : documents = before ++ d :: after) (split' : documents = before' ++ d :: after') :
    before = before' := by
  have nodup : documents.Nodup := listing.distinct.of_map _
  rw [split, List.nodup_middle, List.nodup_cons, List.mem_append, not_or] at nodup
  exact ((List.append_cons_inj_of_notMem nodup.1.1 nodup.1.2).1 (split.symm.trans split')).1

/-- A document inside a folder is found under its path: a basename has no separator, nor has one that is
followed by the ending. -/
theorem resolve_of_mem (member : d ∈ documents) (inside : '/' ∈ d.path.toList) :
    resolve documents d.path = some d := by
  have first : documents.find? (·.basename == d.path) = none :=
    find?_basename_eq_none.2 fun e _ => e.basename_ne_of_mem inside
  have second : ((stem? d.path).bind fun s => documents.find? (·.basename == s)) = none := by
    rw [Option.bind_eq_none_iff]
    intro s stem
    refine find?_basename_eq_none.2 fun e _ => e.basename_ne_of_mem ?_
    rw [stem?_eq_some.1 stem, String.toList_append, String.toList_append] at inside
    simpa [markdownExtension] using inside
  have third : documents.find? (·.path == d.path) = some d := by
    obtain ⟨e, found⟩ : ∃ e, documents.find? (·.path == d.path) = some e :=
      Option.isSome_iff_exists.1 (List.find?_isSome.2 ⟨d, member, beq_self_eq_true _⟩)
    have same : e.path = d.path :=
      beq_iff_eq.1 (@List.find?_some _ (fun x : Document => x.path == d.path) _ _ found)
    rw [found, eq_of_path same]
  rw [resolve_eq, first, second, third]
  rfl

/-- For the path of a document at the root, the basename that is the whole path comes first, and then the
basename of the document. -/
theorem IsListing.resolve_of_notMem (listing : IsListing documents) (member : d ∈ documents)
    (single : '/' ∉ d.path.toList) :
    resolve documents d.path =
      (documents.find? (·.basename == d.path)).or (documents.find? (·.basename == d.basename)) := by
  have spelled : d.path = d.basename ++ "." ++ markdownExtension := by
    rw [← Document.name_of_notMem single]
    exact Document.name_of_isMarkdown (listing.markdown d member)
  have found : (documents.find? (·.basename == d.basename)).isSome :=
    List.find?_isSome.2 ⟨d, member, beq_self_eq_true _⟩
  rw [resolve_eq, stem?_eq_some.2 spelled, Option.bind_some, Option.or_of_isSome found]

/-- The path of a document is longer than its basename. -/
theorem IsListing.basename_ne_path (listing : IsListing documents) (member : d ∈ documents)
    (single : '/' ∉ d.path.toList) : d.basename ≠ d.path := by
  intro same
  have spelled := Document.name_of_isMarkdown (listing.markdown d member)
  rw [Document.name_of_notMem single, same] at spelled
  have lengths := congrArg (fun s : String => s.toList.length) spelled
  simp [markdownExtension] at lengths

/-- A document is found under its own path just if it is in a folder, or no basename is that path and no
earlier document has the same basename. -/
theorem IsListing.resolve_path (listing : IsListing documents) (member : d ∈ documents) :
    resolve documents d.path = some d ↔ '/' ∈ d.path.toList ∨
      (∀ e ∈ documents, e.basename ≠ d.path) ∧
        ∀ before after, documents = before ++ d :: after → ∀ e ∈ before, e.basename ≠ d.basename := by
  by_cases inside : '/' ∈ d.path.toList
  · exact iff_of_true (resolve_of_mem member inside) (.inl inside)
  · rw [listing.resolve_of_notMem member inside, or_iff_right inside]
    cases found : documents.find? (·.basename == d.path) with
    | some e =>
      obtain ⟨named, -⟩ := find?_basename_eq_some.1 found
      refine iff_of_false ?_ fun free => free.1 e (List.mem_of_find?_eq_some found) named
      rintro ⟨⟩
      exact listing.basename_ne_path member inside named
    | none =>
      rw [Option.none_or, find?_basename_eq_some, and_iff_right rfl,
        and_iff_right (find?_basename_eq_none.1 found)]
      constructor
      · rintro ⟨before, after, split, free⟩ before' after' split'
        rw [← listing.before_unique split split']
        exact free
      · intro free
        obtain ⟨before, after, split⟩ := List.append_of_mem member
        exact ⟨before, after, split, free before after split⟩

/-- A document is shadowed just if its own path does not lead to it. -/
theorem IsListing.isShadowed_iff (listing : IsListing documents) (member : d ∈ documents) :
    IsShadowed documents d ↔ resolve documents d.path ≠ some d := by
  rw [ne_eq, listing.resolve_path member, IsShadowed]
  push Not
  refine and_congr_right fun _ => ⟨?_, ?_⟩
  · rintro (⟨e, listed, named⟩ | ⟨before, after, split, e, earlier, same⟩) free
    · exact absurd named (free e listed)
    · exact ⟨before, after, split, e, earlier, same⟩
  · intro taken
    by_cases named : ∃ e ∈ documents, e.basename = d.path
    · exact .inl named
    · push Not at named
      exact .inr (taken named)

/-- Something is found under the path of a document that is listed. -/
theorem exists_resolve_path (member : d ∈ documents) :
    ∃ e ∈ documents, resolve documents d.path = some e := by
  cases found : resolve documents d.path with
  | none => exact absurd (.inr (.inr rfl)) (resolve_eq_none.1 found d member)
  | some e => exact ⟨e, (mem_of_resolve found).1, rfl⟩

end Lookup

/-! ## Reading every file -/

namespace Vault

/-- What comes of reading a document of a vault. -/
def reading (v : Vault) (d : Document) : Except BridgeError String :=
  (v.read d).mapError fun fault => .read d.path fault.message

variable {v : Vault} {query : String} {d : Document}

/-- The content under a query is what is read of the document that the query leads to. -/
theorem content_of_resolve (found : Lookup.resolve v.documents query = some d) :
    v.content query = v.reading d := by
  simp only [content, document, found, reading]
  cases v.read d with
  | ok content => rfl
  | error fault => rfl

/-- A file that a vault tells of is that of a document, which is read under the path of the file unless it is
shadowed; then another one is. -/
structure ReadsFile (v : Vault) (f : Descriptor) (d : Document) : Prop where
  listed : d ∈ v.documents
  described : f = .ofDocument d
  own : ¬ Lookup.IsShadowed v.documents d → v.content f.path = v.reading d
  other : Lookup.IsShadowed v.documents d → ∃ e ∈ v.documents, e ≠ d ∧ v.content f.path = v.reading e

theorem exists_readsFile (listing : Lookup.IsListing v.documents) {f : Descriptor} (told : f ∈ v.allFiles) :
    ∃ d, v.ReadsFile f d := by
  obtain ⟨d, listed, rfl⟩ := List.mem_map.1 told
  refine ⟨d, listed, rfl, fun free => ?_, fun shadowed => ?_⟩
  · rw [listing.isShadowed_iff listed, not_not] at free
    exact content_of_resolve free
  · obtain ⟨e, among, found⟩ := Lookup.exists_resolve_path listed
    refine ⟨e, among, ?_, content_of_resolve found⟩
    rintro rfl
    exact (listing.isShadowed_iff listed).1 shadowed found

end Vault

/-! ## Vaults list their documents so -/

/-- After any changes a vault in memory lists markdown documents with a path for each. -/
theorem MemoryVault.isListing_run (name : String) (changes : List Change) :
    Lookup.IsListing (run name changes).markdownFiles where
  distinct := by
    have among : ((run name changes).markdownFiles.map Document.path).Sublist
        (((run name changes).paths.map Document.mk).map Document.path) := List.filter_sublist.map _
    rw [List.map_map, show Document.path ∘ Document.mk = id from rfl, List.map_id] at among
    exact among.nodup (tracks_run name changes).nodup
  markdown _ listed := (List.mem_filter.1 listed).2

namespace DirectoryVault

variable {v : DirectoryVault}

/-- A vault in a directory lists markdown documents with a path for each, since no two files have the same
path of names. -/
theorem isListing_markdownFiles (wf : v.files.WellFormed) : Lookup.IsListing v.markdownFiles := by
  have listing := markdownFiles_eq fun parts met => (isName_files wf met).2
  have names : ∀ parts ∈ v.visits.filterMap Visit.file?, parts ≠ [] ∧ ∀ part ∈ parts, separator ∉ part :=
    fun parts met => ⟨(isName_files wf met).1, fun part member => ((isName_files wf met).2 part member).noSeparator⟩
  constructor
  · rw [listing, List.map_filterMap, List.Nodup, List.pairwise_filterMap]
    refine (exists_files wf).1.imp_of_mem fun {above below} met met' less path told path' told' same => ?_
    subst same
    obtain ⟨d, document, rfl⟩ := Option.map_eq_some_iff.1 told
    obtain ⟨d', document', same⟩ := Option.map_eq_some_iff.1 told'
    have bytes := (document?_eq_some document).2.2
    rw [← same, (document?_eq_some document').2.2] at bytes
    have equal := Path.joined_injective (names _ met').1 (names _ met).1 (names _ met').2 (names _ met).2 bytes
    rw [equal] at less
    exact List.lt_irrefl _ less
  · intro d listed
    rw [listing] at listed
    obtain ⟨parts, met, document⟩ := List.mem_filterMap.1 listed
    obtain ⟨lists, -, spelled⟩ := document?_eq_some document
    have spells := Path.names_of_joined (names parts met).1 (names parts met).2 spelled
    rw [← spells, ← Document.isMarkdown_eq_lists] at lists
    exact lists

end DirectoryVault

namespace Lookup

/-- **Documents under their own paths.** A document of a listing is found under its path just if it is in a
folder, or no document has that path as its basename and none before it has its basename. So of the files that
a vault tells of, each is read under its path but for those that are shadowed. Vaults in memory and in
directories have such listings. -/
theorem own_path_found :
    (∀ documents, IsListing documents → ∀ d ∈ documents,
      (resolve documents d.path = some d ↔ '/' ∈ d.path.toList ∨
        (∀ e ∈ documents, e.basename ≠ d.path) ∧
          ∀ before after, documents = before ++ d :: after → ∀ e ∈ before, e.basename ≠ d.basename)) ∧
    (∀ v : Vault, IsListing v.documents → ∀ f ∈ v.allFiles, ∃ d, v.ReadsFile f d) ∧
    (∀ name changes, IsListing (MemoryVault.run name changes).markdownFiles) ∧
    ∀ v : DirectoryVault, v.files.WellFormed → IsListing v.markdownFiles :=
  ⟨fun _ listing _ member => listing.resolve_path member,
    fun _ listing _ told => Vault.exists_readsFile listing told,
    MemoryVault.isListing_run, fun _ => DirectoryVault.isListing_markdownFiles⟩

/-- Of two documents at the root that have neighbours of the same name, one is hidden by an earlier document and
one by a document whose basename is its path. -/
theorem own_path_found_shadowed :
    let documents : List Document := [⟨"x/b.md"⟩, ⟨"a.md"⟩, ⟨"b.md"⟩, ⟨"a.md.md"⟩]
    IsListing documents ∧ resolve documents "x/b.md" = some ⟨"x/b.md"⟩ ∧
      resolve documents "a.md" ≠ some ⟨"a.md"⟩ ∧ resolve documents "b.md" ≠ some ⟨"b.md"⟩ := by
  intro documents
  have listing : IsListing documents := ⟨by decide, by decide⟩
  have found := own_path_found.1 documents listing
  refine ⟨listing, (found ⟨"x/b.md"⟩ (by decide)).2 (.inl (by decide)), fun led => ?_, fun led => ?_⟩
  · obtain inside | ⟨free, -⟩ := (found ⟨"a.md"⟩ (by decide)).1 led
    · exact absurd inside (by decide)
    · exact free ⟨"a.md.md"⟩ (by decide) (by decide)
  · obtain inside | ⟨-, free⟩ := (found ⟨"b.md"⟩ (by decide)).1 led
    · exact absurd inside (by decide)
    · exact free [⟨"x/b.md"⟩, ⟨"a.md"⟩] [⟨"a.md.md"⟩] rfl ⟨"x/b.md"⟩ (by decide) (by decide)

end Lookup

end VaultConsole
