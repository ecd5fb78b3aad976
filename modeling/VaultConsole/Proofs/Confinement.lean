import VaultConsole.Proofs.OwnPaths
import VaultConsole.Proofs.Vault.Agreement

/-!
# Documents stay below the root

Whatever its path is, a document is looked for below the root of its vault (`absolute`). The path under which a file
is listed leads back to the file. So a query reads only what is listed, and thus never anything hidden and never
anything above the root, even if the query itself has steps upwards in it. `documents_confined` says all of this.
-/

namespace VaultConsole.DirectoryVault

open VaultConsole.Path

variable {v : DirectoryVault}

/-- A document that is listed is found in the file to which the walk came. -/
theorem entryAt_listed {d : Document} (isListed : v.IsListed (names d.path)) {l : Location} {content : ByteArray}
    (leads : v.lead? (names d.path) = some l) (isFile : v.files.find? l = some (.file content)) :
    let path := absolute v.root.toUTF8.toList d
    v.files.entryAt (origin v.base path) (segmentsOf path) = .ok (.file content) := by
  intro path
  cases found : find v.files v.base v.root with
  | error fault =>
    rw [lead?, found] at leads
    cases leads
  | ok r =>
    obtain ⟨root, noNul⟩ := resolve_names found
    -- No segment holds the character that no path may hold, neither in the root nor in the names below it.
    have clean : (v.pathOf d).any (·.contains 0) = false := by
      rw [List.any_eq_false]
      intro segment member
      rw [List.contains_iff_mem]
      obtain above | below := List.mem_append.1 member
      · exact noNul segment above
      · exact (isListed.isName segment below).noNul
    simp only [lead?, found, FileTree.lead?] at leads
    -- The path goes on from where the root leads, so it ends where the names lead from there.
    rw [entryAt_absolute, FileTree.entryAt, clean, pathOf, FileTree.resolve_append, root]
    cases below : v.files.resolve r.2 r.1 (names d.path) with
    | error fault =>
      rw [below] at leads
      cases leads
    | ok r' =>
      rw [below] at leads
      cases leads
      simp [Except.bind, below, isFile]

/-- A query reads a document: it is listed, the segments of its path are not empty, lead nowhere else than down, and
do not begin with a point, and what is read is the file to which the walk came. -/
structure Reads (v : DirectoryVault) (query : String) (d : Document) : Prop where
  listed : d ∈ v.markdownFiles
  visible : ∀ segment ∈ names d.path, segment ≠ [] ∧ segment ≠ FileName.here ∧ segment ≠ FileName.parent ∧
    segment.head? ≠ some FileName.point
  below : components (absolute v.root.toUTF8.toList d) =
    components v.root.toUTF8.toList ++ (names d.path).map .name
  file : ∃ l content, v.IsListed (names d.path) ∧ v.lead? (names d.path) = some l ∧
    v.files.find? l = some (.file content) ∧
    let path := absolute v.root.toUTF8.toList d
    v.files.entryAt (origin v.base path) (segmentsOf path) = .ok (.file content)
  answer : v.view.document query = (v.view.reading d).map (Descriptor.ofDocument d).withContent

/-- A query reads a document that is listed, or none. -/
theorem reads_or_notFound (wf : v.files.WellFormed) (query : String) :
    v.view.document query = .error (.documentNotFound query) ∨ ∃ d, v.Reads query d := by
  cases named : Lookup.resolve v.markdownFiles query with
  | none =>
    refine .inl ?_
    simp only [Vault.document, view, named]
  | some d =>
    have listed := (Lookup.mem_of_resolve named).1
    have isListed := isListed_of_mem wf listed
    obtain ⟨l, content, leads, isFile⟩ := isListed.file
    refine .inr ⟨d, listed, fun segment member => ?_, components_below_names _ isListed.isName,
      ⟨l, content, isListed, leads, isFile, entryAt_listed isListed leads isFile⟩, ?_⟩
    · have isName := isListed.isName segment member
      exact ⟨isName.ne_nil, isName.ne_here, isName.ne_parent, isListed.visible segment member⟩
    · have documents : v.view.documents = v.markdownFiles := rfl
      simp only [Vault.document, documents, named, Vault.reading]
      cases v.view.read d with
      | ok content => rfl
      | error fault => rfl

/-- **Documents stay below the root.** For every root and every path of a document, what is looked for has the bytes
and the components of the root at its beginning, and nothing after them leads to the top. A path of names below a
root, which are texts, is spelled by one path, which leads back there. So are all files that the walk through a
vault comes to. And a query reads a document that is listed, or none, whatever the query is. -/
theorem documents_confined :
    (∀ (root : List UInt8) (d : Document), root <+: absolute root d ∧
      ∃ rest, components (absolute root d) = components root ++ rest ∧ Component.top ∉ rest) ∧
    (∀ (root : List UInt8) (walked : List FileName), walked ≠ [] → (∀ name ∈ walked, name.IsName) →
      (∀ name ∈ walked, ∃ cs, FileName.ofChars cs = name) →
      ∃ path, relative? root (below root walked) = some path ∧ absolute root ⟨path⟩ = below root walked) ∧
    ∀ v : DirectoryVault, v.files.WellFormed →
      (∀ walked ∈ v.visits.filterMap Visit.file?, walked ≠ [] ∧ ∀ name ∈ walked, name.IsName) ∧
      ∀ query, v.view.document query = .error (.documentNotFound query) ∨ ∃ d, v.Reads query d := by
  refine ⟨fun root d => ?_, fun root walked filled isName isText => ?_, fun v wf => ⟨fun walked met => ?_, ?_⟩⟩
  · have plain := separator_notMem_names d.path
    exact ⟨prefix_below plain, exists_components_below root plain⟩
  · obtain ⟨path, spelled⟩ := Option.isSome_iff_exists.1 (isSome_ofNames? isText)
    rw [← relative?_below root isName] at spelled
    exact ⟨path, spelled, congrArg (Path.below root) (below_relative? filled isName spelled)⟩
  · exact isName_files wf met
  · exact reads_or_notFound wf

/-- A path from the top is looked for below the root too. -/
example : absolute (FileName.ofChars "/v".toList) ⟨"/etc//x.md"⟩ = FileName.ofChars "/v/etc/x.md".toList := by
  decide

/-- A vault beside a document, with a hidden document in it and a link to the directory above. -/
theorem documents_confined_beside :
    let named (name : String) : FileName := FileName.ofChars name.toList
    let entries : List (FileName × Entry) := [(named "a.md", .file "A".toUTF8), (named ".h.md", .file "H".toUTF8),
      (named "up", .link (named ".."))]
    let v : DirectoryVault :=
      ⟨⟨[(named "v", .directory entries), (named "x.md", .file "X".toUTF8)]⟩, [], "v", "v", none⟩
    v.files.WellFormed ∧ ∀ query, v.view.document query = .error (.documentNotFound query) ∨ ∃ d, v.Reads query d := by
  intro named entries v
  have inner : (Entry.directory entries).WellFormed := by
    refine Entry.wellFormed_directory (by decide) (by decide) ?_
    simp [entries, Entry.wellFormed_file, Entry.wellFormed_link]
  have wf : v.files.WellFormed := by
    refine Entry.wellFormed_directory (by decide) (by decide) ?_
    simp [v, inner, Entry.wellFormed_file]
  exact ⟨wf, (documents_confined.2.2 v wf).2⟩

end VaultConsole.DirectoryVault
