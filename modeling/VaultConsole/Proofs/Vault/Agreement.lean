import VaultConsole.Proofs.Listing
import VaultConsole.Proofs.Lookup
import VaultConsole.Proofs.Vault.History
import VaultConsole.Proofs.Vault.Tree

/-!
# The two vaults agree

A vault in a directory of plain files and a vault in memory with the same files cannot be told apart by what
sessions ask of them. `AgreesWith` says how a vault in memory answers for one in a directory, and
`agreesWith_imported` that the one into which the visible files were inserted in the order of the walk does so.
Where a path leads from the root of the vault is the place where the walk met it (`resolve_plain`,
`read_document`), so that what is listed is what is read.
-/

namespace VaultConsole

/-- A new vault in memory into which the visible files below an entry were inserted. -/
def Entry.imported (e : Entry) (name : String) : MemoryVault :=
  MemoryVault.run name (e.documents.map fun d => .insert d.1 d.2)

namespace DirectoryVault

/-- How a vault in memory answers for a vault in the directory at a location. -/
structure AgreesWith (v : DirectoryVault) (l : Location) (m : MemoryVault) : Prop where
  /-- Stored are the files on whose path from the directory no name begins with a point, each with its text
  under its path, -/
  stored : ∀ path text, m.read? path = some text ↔
    ∃ names, (∀ name ∈ names, name.head? ≠ some FileName.point) ∧
      v.files.find? (l ++ names) = some (.file text.toUTF8) ∧
      FileName.ofChars path.toList = Path.joined names
  /-- in the order in which the walk through the vault meets them, -/
  walked : m.paths.map (fun path => FileName.ofChars path.toList) =
    (v.visits.filterMap Visit.file?).map Path.joined
  /-- which is that of their names. -/
  ordered : (v.visits.filterMap Visit.file?).Pairwise (· < ·)
  /-- Both list the same documents, -/
  allFiles : v.view.allFiles = m.view.allFiles
  /-- and find the same document with the same content for each query, or none. -/
  document : ∀ query, v.view.document query = m.view.document query
  content : ∀ query, v.view.content query = m.view.content query
  /-- What is listed for the extension of the file is listed for that of the path, -/
  listed : ∀ names ∈ v.visits.filterMap Visit.file?, ∀ path,
    FileName.ofChars path.toList = Path.joined names →
      (names.getLast?.bind FileName.extension? = some (FileName.ofChars markdownExtension.toList) ↔
        (Document.mk path).extension = markdownExtension)
  /-- and what is listed is read from the file that the walk met. -/
  readBack : ∀ d ∈ v.markdownFiles, ∃ names links text,
    names ∈ v.visits.filterMap Visit.file? ∧ FileName.ofChars d.path.toList = Path.joined names ∧
      v.files.resolve FileTree.maxLinks v.start (v.pathOf d) = .ok (l ++ names, links) ∧
      v.files.find? (l ++ names) = some (.file text.toUTF8) ∧ v.read d = .ok text

/-! ## Following paths -/

/-- Names below a plain entry lead where they say, and take no links. -/
theorem resolve_plain {t : FileTree} {here : Location} {e : Entry} (isEntry : t.find? here = some e)
    (plain : e.Plain) {names : List FileName} {content : ByteArray}
    (found : e.find? names = some (.file content)) (links : Nat) :
    t.resolve links here names = .ok (here ++ names, links) := by
  induction names generalizing here e with
  | nil => rw [FileTree.resolve_nil, List.append_nil]
  | cons name names ih =>
    cases e with
    | file content => cases found
    | link target => cases found
    | directory entries =>
      obtain ⟨below, lookup, inside⟩ := Option.bind_eq_some_iff.1 found
      have listed := (Entry.lookup_eq_some plain.wellFormed).1 lookup
      have isName : name.IsName := plain.wellFormed.isName [] entries rfl _ listed
      have there : t.find? (here ++ [name]) = some below := by
        rw [FileTree.find?_append_name isEntry, lookup]
      -- One name leads to its entry, and takes no link as there is none.
      have step : t.resolve links here [name] = .ok (here ++ [name], links) := by
        rw [FileTree.resolve_name isEntry isName, lookup]
        cases below with
        | file content => rfl
        | directory inner => rfl
        | link target => exact absurd (Entry.find?_cons plain.wellFormed listed []) (plain.noLink _ target)
      have split : name :: names = [name] ++ names := rfl
      rw [split, FileTree.resolve_append, step, ← List.append_assoc]
      exact ih there (plain.below listed) inside

/-- What is below an entry of a tree is in the tree. -/
theorem find?_below {t : FileTree} {here : Location} {e : Entry} (isEntry : t.find? here = some e)
    (names : List FileName) : t.find? (here ++ names) = e.find? names := by
  rw [FileTree.find?] at isEntry
  rw [FileTree.find?, Entry.find?_append, isEntry, Option.bind_some]

variable {v : DirectoryVault} {l : Location} {links : Nat}

/-- The path of a vault leads to its directory, by its names as by its bytes. -/
theorem resolve_names (found : find v.files v.base v.root = .ok (l, links)) :
    v.files.resolve FileTree.maxLinks v.start (Path.names v.root) = .ok (l, links) ∧
      ∀ name ∈ Path.names v.root, 0 ∉ name := by
  unfold find at found
  split at found
  · cases found
  · rename_i noNul
    split at found
    · cases found
    · refine ⟨(congrArg _ (Path.names_eq v.root)).trans found, fun name member zero => noNul ?_⟩
      obtain ⟨segment, inside, rfl⟩ := List.mem_map.1 member
      obtain ⟨c, there, byte⟩ := List.mem_flatMap.1 zero
      have nul : c = '\x00' := Char.toNat_inj.1 (FileName.eq_of_mem_utf8EncodeChar (by decide) byte)
      exact List.contains_iff_mem.2 (nul ▸ Text.mem_of_mem_pieces inside there)

/-! ## Visible files as documents -/

variable {entries : List (FileName × Entry)}

/-- The walk through a vault of plain files meets the visible ones. -/
theorem visits_plain (found : find v.files v.base v.root = .ok (l, links))
    (isDirectory : v.files.find? l = some (.directory entries)) (plain : (Entry.directory entries).Plain) :
    v.visits.filterMap Visit.file? = (Entry.directory entries).visibleFiles.map Prod.fst := by
  have walked := v.files.walk_plain links [⟨l, []⟩] [] l entries plain
  rw [visits, found]
  simp only [isDirectory]
  exact walked

/-- A visible file below a directory has a path of names, which is that of its document. -/
theorem names_document (plain : (Entry.directory entries).Plain) {f : List FileName × ByteArray}
    (visible : f ∈ (Entry.directory entries).visibleFiles) {d : String × String}
    (document : Entry.document? f = some d) :
    FileName.ofChars d.1.toList = Path.joined f.1 ∧ Path.names d.1 = f.1 ∧ ∀ name ∈ f.1, name.IsName := by
  obtain ⟨inside, -⟩ := (Entry.mem_visibleFiles plain.wellFormed).1 visible
  obtain ⟨spelled, -⟩ := Entry.document?_eq_some document
  have bytes := (Path.ofNames?_eq_some spelled).2
  have isName : ∀ name ∈ f.1, name.IsName := fun name there => (plain.isText inside name there).1
  have filled : f.1 ≠ [] := by
    intro empty
    rw [empty] at inside
    cases inside
  exact ⟨bytes, Path.names_of_joined filled (fun name there => (isName name there).noSeparator) bytes, isName⟩

/-- The document of a visible file is read from that file. -/
theorem read_document (found : find v.files v.base v.root = .ok (l, links))
    (isDirectory : v.files.find? l = some (.directory entries)) (plain : (Entry.directory entries).Plain)
    {f : List FileName × ByteArray} (visible : f ∈ (Entry.directory entries).visibleFiles)
    {d : String × String} (document : Entry.document? f = some d) :
    v.files.resolve FileTree.maxLinks v.start (v.pathOf ⟨d.1⟩) = .ok (l ++ f.1, links) ∧
      v.files.find? (l ++ f.1) = some (.file d.2.toUTF8) ∧ v.read ⟨d.1⟩ = .ok d.2 := by
  obtain ⟨inside, -⟩ := (Entry.mem_visibleFiles plain.wellFormed).1 visible
  obtain ⟨-, names, isName⟩ := names_document plain visible document
  have content := (Entry.document?_eq_some document).2
  obtain ⟨root, noNul⟩ := resolve_names found
  have leads : v.files.resolve FileTree.maxLinks v.start (v.pathOf ⟨d.1⟩) = .ok (l ++ f.1, links) := by
    rw [pathOf, FileTree.resolve_append, root, names]
    exact resolve_plain isDirectory plain inside links
  have isFile : v.files.find? (l ++ f.1) = some (.file d.2.toUTF8) := by
    rw [find?_below isDirectory, content]
    exact inside
  -- Neither the names of the root nor those of the document have a NUL, so that the path is asked for.
  have clean : ((v.pathOf ⟨d.1⟩).any (·.contains 0)) = false := by
    rw [List.any_eq_false]
    intro name there
    rw [pathOf, names, List.mem_append] at there
    rw [List.contains_iff_mem]
    obtain above | below := there
    · exact noNul name above
    · exact (isName name below).noNul
  refine ⟨leads, isFile, ?_⟩
  rw [read_eq, FileTree.readText, FileTree.entryAt, clean]
  simp only [Bool.false_eq_true, if_false, leads, isFile, Text.Utf8.decode_eq_ok.2 rfl]
  rfl

/-- The visible files of a plain directory have different paths. -/
theorem nodup_documents (plain : (Entry.directory entries).Plain) :
    ((Entry.directory entries).documents.map Prod.fst).Nodup := by
  rw [Entry.documents, List.nodup_iff_pairwise_ne, List.pairwise_map, List.pairwise_filterMap]
  refine (Entry.visibleFiles_pairwise plain.wellFormed).imp_of_mem ?_
  intro f g visible visible' less d document d' document' same
  have names := (names_document plain visible document).2.1
  have names' := (names_document plain visible' document').2.1
  rw [← names, ← names', same] at less
  exact List.lt_irrefl _ less

/-- The documents have the paths of the visible files, in their order. -/
theorem map_documents (plain : (Entry.directory entries).Plain) :
    (Entry.directory entries).documents.map (fun d => FileName.ofChars d.1.toList) =
      (Entry.directory entries).visibleFiles.map fun f => Path.joined f.1 := by
  rw [Entry.documents, List.map_filterMap, ← List.filterMap_eq_map]
  refine List.filterMap_congr fun f visible => ?_
  obtain ⟨d, document⟩ := Option.isSome_iff_exists.1 (plain.isSome_document? visible)
  rw [document, Option.map_some, (names_document plain visible document).1]
  rfl

/-- The rule for files: the last name has the extension of markdown. -/
theorem lists_iff {names : List FileName} : lists names = true ↔
    names.getLast?.bind FileName.extension? = some (FileName.ofChars markdownExtension.toList) := by
  rw [lists]
  cases names.getLast? with
  | none => simp
  | some name => simp

/-- A document is listed for a visible file if it has the extension. -/
theorem document?_eq (plain : (Entry.directory entries).Plain) {f : List FileName × ByteArray}
    (visible : f ∈ (Entry.directory entries).visibleFiles) :
    document? f.1 = ((Entry.document? f).map fun d => Document.mk d.1).filter Document.isMarkdown := by
  obtain ⟨d, document⟩ := Option.isSome_iff_exists.1 (plain.isSome_document? visible)
  obtain ⟨-, names, -⟩ := names_document plain visible document
  have spelled := (Entry.document?_eq_some document).1
  rw [document, document?, spelled, ← names]
  simp [Option.filter, Document.isMarkdown_eq_lists, names]

/-! ## Agreement -/

theorem documents_imported (plain : (Entry.directory entries).Plain) (name : String) :
    ((Entry.directory entries).imported name).documents = (Entry.directory entries).documents :=
  MemoryVault.documents_run_insert name (nodup_documents plain)

/-- A vault of plain files lists the visible ones by their names. -/
theorem markdownFiles_plain (found : find v.files v.base v.root = .ok (l, links))
    (isDirectory : v.files.find? l = some (.directory entries)) (plain : (Entry.directory entries).Plain) :
    v.markdownFiles = ((Entry.directory entries).visibleFiles.map Prod.fst).filterMap document? := by
  have visits := visits_plain found isDirectory plain
  rw [markdownFiles_eq, visits]
  intro names met name member
  rw [visits] at met
  obtain ⟨f, visible, rfl⟩ := List.mem_map.1 met
  exact (plain.isText ((Entry.mem_visibleFiles plain.wellFormed).1 visible).1 name member).1

/-- Both vaults list the visible files with the extension of markdown. -/
theorem markdownFiles_imported (found : find v.files v.base v.root = .ok (l, links))
    (isDirectory : v.files.find? l = some (.directory entries)) (plain : (Entry.directory entries).Plain)
    (name : String) : v.markdownFiles = ((Entry.directory entries).imported name).markdownFiles := by
  rw [markdownFiles_plain found isDirectory plain, MemoryVault.markdownFiles, MemoryVault.paths,
    documents_imported plain, Entry.documents, List.filterMap_map, List.map_map, List.map_filterMap,
    List.filter_filterMap]
  exact List.filterMap_congr fun f visible => document?_eq plain visible

/-- What is listed is a document of a visible file. -/
theorem exists_visible (found : find v.files v.base v.root = .ok (l, links))
    (isDirectory : v.files.find? l = some (.directory entries)) (plain : (Entry.directory entries).Plain)
    {d : Document} (listed : d ∈ v.markdownFiles) :
    ∃ f ∈ (Entry.directory entries).visibleFiles, ∃ text, Entry.document? f = some (d.path, text) := by
  rw [markdownFiles_plain found isDirectory plain, List.filterMap_map] at listed
  obtain ⟨f, visible, document⟩ := List.mem_filterMap.1 listed
  rw [Function.comp_apply, document?_eq plain visible] at document
  obtain ⟨⟨path, text⟩, described, rfl⟩ := Option.map_eq_some_iff.1 (Option.filter_eq_some_iff.1 document).1
  exact ⟨f, visible, text, described⟩

/-- **The two vaults are interchangeable.** A vault in a directory of plain files and the vault in memory with
its visible files answer every question about their documents in the same way. -/
theorem agreesWith_imported (v : DirectoryVault) (name : String) {l : Location} {links : Nat}
    {entries : List (FileName × Entry)} (found : find v.files v.base v.root = .ok (l, links))
    (isDirectory : v.files.find? l = some (.directory entries)) (plain : (Entry.directory entries).Plain) :
    v.AgreesWith l ((Entry.directory entries).imported name) := by
  have visits := visits_plain found isDirectory plain
  -- The texts in memory are those of the visible files,
  have stored : ∀ path text, ((Entry.directory entries).imported name).read? path = some text ↔
      ∃ f ∈ (Entry.directory entries).visibleFiles, Entry.document? f = some (path, text) := by
    intro path text
    rw [MemoryVault.read?, documents_imported plain, MemoryVault.lookup_eq_some (nodup_documents plain)]
    exact List.mem_filterMap
  have same := markdownFiles_imported found isDirectory plain name
  -- and both vaults find a document in the same list, so that they read the same text of it.
  have document : ∀ query, v.view.document query =
      ((Entry.directory entries).imported name).view.document query := by
    intro query
    simp only [Vault.document, view, MemoryVault.view, ← same]
    cases named : Lookup.resolve v.markdownFiles query with
    | none => rfl
    | some d =>
      obtain ⟨f, visible, text, document⟩ := exists_visible found isDirectory plain (Lookup.mem_of_resolve named).1
      have here := (read_document found isDirectory plain visible document).2.2
      have there : ((Entry.directory entries).imported name).read d = .ok text :=
        MemoryVault.read_eq_ok.2 ((stored d.path text).2 ⟨f, visible, document⟩)
      simp only [here, there]
  refine ⟨fun path text => ?_, ?_, ?_, congrArg (List.map _) same, document,
    fun query => congrArg (Except.map _) (document query), ?_, ?_⟩
  · rw [stored]
    constructor
    · rintro ⟨f, visible, document⟩
      exact ⟨f.1, ((Entry.mem_visibleFiles plain.wellFormed).1 visible).2,
        (read_document found isDirectory plain visible document).2.1,
        (names_document plain visible document).1⟩
    · -- A path is told by its bytes, so that a file with those names is the one of the document.
      rintro ⟨names, shown, isFile, bytes⟩
      rw [find?_below isDirectory] at isFile
      have visible := (Entry.mem_visibleFiles plain.wellFormed).2 ⟨isFile, shown⟩
      obtain ⟨⟨path', text'⟩, document⟩ := Option.isSome_iff_exists.1 (plain.isSome_document? visible)
      have bytes' := (names_document plain visible document).1
      have text_eq : text' = text := String.toByteArray_inj.1 (Entry.document?_eq_some document).2
      have path_eq : path' = path :=
        String.toList_inj.1 (FileName.ofChars_injective (bytes'.trans bytes.symm))
      exact ⟨_, visible, path_eq ▸ text_eq ▸ document⟩
  · rw [MemoryVault.paths, documents_imported plain, List.map_map, visits, List.map_map]
    exact map_documents plain
  · rw [visits, List.pairwise_map]
    exact Entry.visibleFiles_pairwise plain.wellFormed
  · intro names met path bytes
    rw [visits] at met
    obtain ⟨f, visible, rfl⟩ := List.mem_map.1 met
    obtain ⟨d, document⟩ := Option.isSome_iff_exists.1 (plain.isSome_document? visible)
    obtain ⟨bytes', names, -⟩ := names_document plain visible document
    have path_eq : d.1 = path := String.toList_inj.1 (FileName.ofChars_injective (bytes'.trans bytes.symm))
    have filters := Document.isMarkdown_eq_lists path
    rw [← path_eq, names] at filters
    rw [← path_eq, ← lists_iff, ← filters, Document.isMarkdown, beq_iff_eq]
  · intro d listed
    obtain ⟨f, visible, text, document⟩ := exists_visible found isDirectory plain listed
    obtain ⟨leads, isFile, reads⟩ := read_document found isDirectory plain visible document
    refine ⟨f.1, links, text, ?_, (names_document plain visible document).1, leads, isFile, reads⟩
    rw [visits]
    exact List.mem_map_of_mem visible

/-- A directory with a document in a directory below it, a hidden one, a file with another extension, and a
directory that is named like a document. -/
theorem agreesWith_imported_notes :
    let named (name : String) : FileName := FileName.ofChars name.toList
    let text (s : String) : Entry := .file s.toUTF8
    let below : List (FileName × Entry) := [(named "x.tar.md", text "X"), (named ".h.md", text "H")]
    let entries : List (FileName × Entry) :=
      [(named "b.md", text "B"), (named "a", .directory below), (named "n.txt", text "N"),
        (named "notes.md", .directory [])]
    let v : DirectoryVault := ⟨⟨[(named "v", .directory entries)]⟩, [], "v", "v", none⟩
    (find v.files v.base v.root = .ok ([named "v"], FileTree.maxLinks) ∧
      v.files.find? [named "v"] = some (.directory entries) ∧ (Entry.directory entries).Plain) ∧
      v.AgreesWith [named "v"] ((Entry.directory entries).imported "Notes") := by
  intro named text below entries v
  have written : ∀ s, (text s).Plain := Entry.plain_file
  have spelled : ∀ name : String, ∃ cs, FileName.ofChars cs = named name := fun name => ⟨_, rfl⟩
  have empty : (Entry.directory []).Plain := Entry.plain_directory (by simp) (by simp) (by simp) (by simp)
  have inner : (Entry.directory below).Plain := by
    refine Entry.plain_directory (by decide) (by decide) ?_ ?_
    · simp [below, spelled]
    · simp [below, written]
  have plain : (Entry.directory entries).Plain := by
    refine Entry.plain_directory (by decide) (by decide) ?_ ?_
    · simp [entries, spelled]
    · simp [entries, written, inner, empty]
  have isDirectory : v.files.find? [named "v"] = some (.directory entries) := rfl
  have found : find v.files v.base v.root = .ok ([named "v"], FileTree.maxLinks) := by
    -- The root is one name below the directory that the process is in, which has no link.
    have segments : segmentsOf v.root.toUTF8.toList = [named "v"] := (Path.names_eq "v").symm
    have top : origin v.base v.root.toUTF8.toList = [] := ite_self []
    have top' : v.files.find? [] = some (.directory [(named "v", .directory entries)]) := rfl
    have isName : (named "v").IsName := by decide
    have step := FileTree.resolve_name top' isName FileTree.maxLinks
    rw [find, if_neg (by decide), if_neg (by decide), FileTree.follow, segments, top]
    exact step
  exact ⟨⟨found, isDirectory, plain⟩, agreesWith_imported v "Notes" found isDirectory plain⟩

end DirectoryVault

end VaultConsole
