import Mathlib.Data.List.Nodup
import VaultConsole.Proofs.Components
import VaultConsole.Proofs.Routes

/-!
# The listing of a vault in a directory

`IsListed` is the rule by which a path of names below the directory of a vault is listed. It speaks of where
each part of the path leads, and of nothing that a walk remembers. `markdownFiles_listing` says that the
documents of the vault are exactly these paths, in the strict order of their names.
-/

namespace VaultConsole

namespace DirectoryVault

/-- Where names lead from the directory of a vault. -/
def lead? (v : DirectoryVault) (names : List FileName) : Option Location :=
  match find v.files v.base v.root with
  | .ok (l, links) => v.files.lead? links l names
  | .error _ => none

/-- Whether a path of names is listed: every name is a text that is not hidden, every part of the path
leads to a directory, a link in it does not lead back to a directory on the way to it, and the whole leads to
a file with the extension of markdown. -/
structure IsListed (v : DirectoryVault) (names : List FileName) : Prop where
  ne_nil : names ≠ []
  isName : ∀ name ∈ names, name.IsName
  isText : ∀ name ∈ names, ∃ cs, FileName.ofChars cs = name
  visible : ∀ name ∈ names, name.head? ≠ some FileName.point
  directories : ∀ above rest, names = above ++ rest → rest ≠ [] →
    ∃ l entries, v.lead? above = some l ∧ v.files.find? l = some (.directory entries)
  noLoop : ∀ above name rest, names = above ++ name :: rest → rest ≠ [] →
    ∀ l, v.lead? above = some l → v.files.IsLink l name →
      ∀ before after, above = before ++ after → v.lead? before ≠ v.lead? (above ++ [name])
  file : ∃ l content, v.lead? names = some l ∧ v.files.find? l = some (.file content)
  markdown : ∃ above stem, stem ≠ [] ∧
    names = above ++ [stem ++ FileName.point :: FileName.ofChars markdownExtension.toList]

variable {v : DirectoryVault}

/-- A listed path begins in a directory. -/
theorem IsListed.root {names : List FileName} (h : v.IsListed names) :
    ∃ l entries, v.lead? [] = some l ∧ v.files.find? l = some (.directory entries) :=
  h.directories [] names rfl h.ne_nil

/-- A name that is a text is hidden just if it begins with a point. -/
theorem isHidden_eq_false_iff {name : FileName} (isText : ∃ cs, FileName.ofChars cs = name) :
    name.isHidden = false ↔ name.head? ≠ some FileName.point := by
  obtain ⟨cs, rfl⟩ := isText
  rw [FileName.isHidden_ofChars, beq_eq_false_iff_ne]

/-- The extension of markdown is that of a path whose last name is something, a point and that extension. -/
theorem lists_iff_exists {names : List FileName} :
    lists names = true ↔ ∃ above stem, stem ≠ [] ∧
      names = above ++ [stem ++ FileName.point :: FileName.ofChars markdownExtension.toList] := by
  have noPoint : FileName.point ∉ FileName.ofChars markdownExtension.toList := by decide
  unfold lists
  constructor
  · intro h
    cases last : names.getLast? with
    | none =>
      rw [last] at h
      cases h
    | some name =>
      rw [last, Option.any_some, beq_iff_eq, FileName.extension?_eq_some noPoint] at h
      obtain ⟨stem, front, rfl⟩ := h
      exact ⟨names.dropLast, stem, front, (List.dropLast_append_getLast? _ last).symm⟩
  · rintro ⟨above, stem, front, rfl⟩
    simp only [List.getLast?_append, List.getLast?_singleton, Option.some_or, Option.any_some, beq_iff_eq]
    exact (FileName.extension?_eq_some noPoint).2 ⟨stem, front, rfl⟩

variable {l : Location} {links : Nat} {names : List FileName}

/-- Below the directory of the vault, names lead where they lead from there. -/
theorem lead?_eq_below (found : find v.files v.base v.root = .ok (l, links)) (names : List FileName) :
    v.lead? names = v.files.lead? links l names := by
  simp only [lead?, found]

/-- A listed path is a route below the directory of the vault. -/
theorem IsListed.isRoute (found : find v.files v.base v.root = .ok (l, links)) (h : v.IsListed names) :
    v.files.IsRoute links [l] l names := by
  have lead := lead?_eq_below found
  refine ⟨h.ne_nil, ?_, ?_, ?_, ?_⟩
  · intro name member
    exact ⟨h.isName name member, (isHidden_eq_false_iff (h.isText name member)).2 (h.visible name member)⟩
  · intro above rest split more
    rw [← lead]
    exact h.directories above rest split more
  · intro above name rest split more l' leadsAbove isLink target leadsTarget
    rw [← lead] at leadsAbove leadsTarget
    have apart := h.noLoop above name rest split more l' leadsAbove isLink
    rw [leadsTarget] at apart
    refine ⟨?_, fun before after split' => by rw [← lead]; exact apart before after split'⟩
    -- The directory of the vault is the one that no name leads to.
    rw [List.mem_singleton]
    rintro rfl
    exact apart [] above rfl (by rw [lead, FileTree.lead?_nil])
  · obtain ⟨l', content, leadsFile, isFile⟩ := h.file
    exact ⟨l', content, by rw [← lead, leadsFile], isFile⟩

/-- A route of texts to a file with the extension is a listed path. -/
theorem isListed_of_isRoute (found : find v.files v.base v.root = .ok (l, links))
    (route : v.files.IsRoute links [l] l names) (isText : ∀ name ∈ names, ∃ cs, FileName.ofChars cs = name)
    (listed : lists names) : v.IsListed names := by
  have lead := lead?_eq_below found
  refine ⟨route.ne_nil, fun name member => (route.visible name member).1, isText, ?_, ?_, ?_, ?_,
    lists_iff_exists.1 listed⟩
  · intro name member
    exact (isHidden_eq_false_iff (isText name member)).1 (route.visible name member).2
  · intro above rest split more
    rw [lead]
    exact route.directories above rest split more
  · intro above name rest split more l' leadsAbove isLink before after split'
    rw [lead] at leadsAbove
    rw [lead, lead]
    cases target : v.files.lead? links l (above ++ [name]) with
    | some found =>
      exact (route.noLoop above name rest split more l' leadsAbove isLink found target).2 before after split'
    | none =>
      -- Since the path goes on, the link leads to a directory.
      obtain ⟨l'', entries, leads, -⟩ := route.directories (above ++ [name]) rest (by simp [split]) more
      rw [target] at leads
      cases leads
  · obtain ⟨l', content, leadsFile, isFile⟩ := route.file
    exact ⟨l', content, by rw [lead, leadsFile], isFile⟩

/-- Below the directory of the vault the listed paths are the routes whose names are texts and whose last
name has the extension. -/
theorem isListed_iff (found : find v.files v.base v.root = .ok (l, links)) :
    v.IsListed names ↔ v.files.IsRoute links [l] l names ∧
      (∀ name ∈ names, ∃ cs, FileName.ofChars cs = name) ∧ lists names :=
  ⟨fun h => ⟨h.isRoute found, h.isText, lists_iff_exists.2 h.markdown⟩,
    fun ⟨route, isText, listed⟩ => isListed_of_isRoute found route isText listed⟩

/-! ## The documents -/

/-- The document of a path of names, if it is one that is listed. -/
def document? (names : List FileName) : Option Document :=
  if lists names then (Path.ofNames? names).map Document.mk else none

theorem document?_eq_some {names : List FileName} {d : Document} (h : document? names = some d) :
    lists names ∧ (∀ name ∈ names, ∃ cs, FileName.ofChars cs = name) ∧
      FileName.ofChars d.path.toList = Path.joined names := by
  unfold document? at h
  split at h
  case isTrue listed =>
    obtain ⟨path, spelled, rfl⟩ := Option.map_eq_some_iff.1 h
    obtain ⟨texts, bytes⟩ := Path.ofNames?_eq_some spelled
    exact ⟨listed, texts, bytes⟩
  case isFalse => cases h

theorem isSome_document? {names : List FileName} :
    (document? names).isSome ↔ lists names ∧ ∀ name ∈ names, ∃ cs, FileName.ofChars cs = name := by
  constructor
  · intro h
    obtain ⟨d, found⟩ := Option.isSome_iff_exists.1 h
    obtain ⟨listed, texts, -⟩ := document?_eq_some found
    exact ⟨listed, texts⟩
  · rintro ⟨listed, texts⟩
    obtain ⟨path, spelled⟩ := Option.isSome_iff_exists.1 (Path.isSome_ofNames? texts)
    simp [document?, listed, spelled]

/-- The documents of paths have the bytes of these paths. -/
theorem map_filterMap_document? (found : List (List FileName)) :
    (found.filterMap document?).map (fun d => FileName.ofChars d.path.toList) =
      (found.filter fun names => (document? names).isSome).map Path.joined := by
  induction found with
  | nil => rfl
  | cons names found ih =>
    cases document : document? names with
    | none => simp [document, ih]
    | some d => simp [document, ih, (document?_eq_some document).2.2]

/-- The files that a walk through a vault meets are at the ends of routes, each met once. -/
theorem exists_files (wf : v.files.WellFormed) :
    (v.visits.filterMap Visit.file?).Pairwise (· < ·) ∧
      ∀ names ∈ v.visits.filterMap Visit.file?, ∃ l links,
        find v.files v.base v.root = .ok (l, links) ∧ v.files.IsRoute links [l] l names := by
  unfold visits
  cases find v.files v.base v.root with
  | error fault => exact ⟨.nil, nofun⟩
  | ok r =>
    obtain ⟨l, links⟩ := r
    cases isDirectory : v.files.find? l with
    | none => simp [isDirectory]
    | some e =>
      cases e with
      | file content => simp [isDirectory]
      | link target => simp [isDirectory]
      | directory entries =>
        obtain ⟨paths, files, sorted, reached⟩ :=
          v.files.walk_finds wf links [⟨l, []⟩] [] l entries isDirectory
        simp only [isDirectory, files, List.nil_append, List.map_id']
        refine ⟨sorted, fun names met => ⟨l, links, rfl, ?_⟩⟩
        exact (FileTree.reached_iff (List.mem_singleton.2 rfl) isDirectory).1 ((reached names).1 met)

/-- The walk comes to a file by names. -/
theorem isName_files (wf : v.files.WellFormed) {names : List FileName}
    (met : names ∈ v.visits.filterMap Visit.file?) : names ≠ [] ∧ ∀ name ∈ names, name.IsName := by
  obtain ⟨l, links, -, route⟩ := (exists_files wf).2 names met
  exact ⟨route.ne_nil, fun name member => (route.visible name member).1⟩

/-- A document is listed under the names by which the walk came to it. -/
theorem markdownFiles_eq (isName : ∀ names ∈ v.visits.filterMap Visit.file?, ∀ name ∈ names, name.IsName) :
    v.markdownFiles = (v.visits.filterMap Visit.file?).filterMap document? := by
  rw [markdownFiles, List.filterMap_filterMap]
  refine List.filterMap_congr fun visit met => ?_
  cases visit with
  | file names =>
    have isName := isName names (List.mem_filterMap.2 ⟨_, met, rfl⟩)
    simp only [documentOf?, Visit.file?, Path.relative?_below _ isName]
    rfl
  | broken path fault => rfl
  | loop path above => rfl

/-- A vault that is in no directory lists nothing. -/
theorem markdownFiles_eq_nil
    (lacks : ∀ l entries, v.lead? [] = some l → v.files.find? l ≠ some (.directory entries)) :
    v.markdownFiles = [] := by
  rw [markdownFiles, visits]
  simp only [lead?] at lacks
  cases found : find v.files v.base v.root with
  | error fault => rfl
  | ok r =>
    obtain ⟨l, links⟩ := r
    simp only [found, FileTree.lead?_nil] at lacks
    cases e : v.files.find? l with
    | none => simp [e]
    | some e' =>
      cases e' with
      | file content => simp [e]
      | link target => simp [e]
      | directory entries => exact absurd e (lacks l entries rfl)

/-- What is listed is a listed path, and the names in it are those by which the walk came to it. -/
theorem isListed_of_mem (wf : v.files.WellFormed) {d : Document} (listed : d ∈ v.markdownFiles) :
    v.IsListed (Path.names d.path) := by
  rw [markdownFiles_eq fun names met => (isName_files wf met).2] at listed
  obtain ⟨names, met, document⟩ := List.mem_filterMap.1 listed
  obtain ⟨lists, isText, spelled⟩ := document?_eq_some document
  obtain ⟨filled, isName⟩ := isName_files wf met
  rw [Path.names_of_joined filled (fun name member => (isName name member).noSeparator) spelled]
  obtain ⟨l, links, found, route⟩ := (exists_files wf).2 names met
  exact (isListed_iff found).2 ⟨route, isText, lists⟩

/-- The documents of a vault in a directory are the listed paths, each once, in the order of their names,
which are compared byte by byte. A vault whose directory is missing or is a file lists nothing. -/
theorem markdownFiles_listing (wf : v.files.WellFormed) :
    ∃ listing : List (List FileName),
      v.markdownFiles.map (fun d => FileName.ofChars d.path.toList) = listing.map Path.joined ∧
      listing.Pairwise (· < ·) ∧ (∀ names, names ∈ listing ↔ v.IsListed names) ∧
      v.markdownFiles.Nodup ∧
      ((∀ l entries, v.lead? [] = some l → v.files.find? l ≠ some (.directory entries)) →
        v.markdownFiles = []) := by
  by_cases lacks : ∀ l entries, v.lead? [] = some l → v.files.find? l ≠ some (.directory entries)
  · -- A listed path begins in a directory, so there is none either.
    rw [markdownFiles_eq_nil lacks]
    refine ⟨[], rfl, .nil, fun names => ?_, .nil, fun _ => rfl⟩
    constructor
    · nofun
    · intro h
      obtain ⟨l, entries, leads, isDirectory⟩ := h.root
      exact absurd isDirectory (lacks l entries leads)
  · obtain ⟨l, links, entries, found, isDirectory⟩ : ∃ l links entries,
        find v.files v.base v.root = .ok (l, links) ∧ v.files.find? l = some (.directory entries) := by
      push Not at lacks
      obtain ⟨l, entries, leads, isDirectory⟩ := lacks
      simp only [lead?] at leads
      split at leads
      case h_1 l' links found =>
        rw [FileTree.lead?_nil] at leads
        cases leads
        exact ⟨l, links, entries, found, isDirectory⟩
      case h_2 => cases leads
    obtain ⟨paths, files, sorted, reached⟩ :=
      v.files.walk_finds wf links [⟨l, []⟩] [] l entries isDirectory
    have reached : ∀ names, names ∈ paths ↔ FileTree.Reached v.files links [l] l names := reached
    -- The walk finds the routes, and of these the documents are the texts with the extension.
    have isListed : ∀ names,
        names ∈ paths.filter (fun names => (document? names).isSome) ↔ v.IsListed names := by
      intro names
      rw [List.mem_filter, reached, isListed_iff found, isSome_document?,
        FileTree.reached_iff (List.mem_singleton.2 rfl) isDirectory]
      exact and_congr_right fun _ => and_comm
    have documents : v.markdownFiles = paths.filterMap document? := by
      rw [markdownFiles_eq fun names met => (isName_files wf met).2, visits, found]
      simp only [isDirectory, files]
      simp
    have bytes := map_filterMap_document? paths
    rw [← documents] at bytes
    refine ⟨_, bytes, sorted.filter _, isListed, ?_, fun h => absurd h lacks⟩
    -- Different paths of names are spelled differently, so no document is there twice.
    have once : ((paths.filter fun names => (document? names).isSome).map Path.joined).Nodup := by
      refine List.Nodup.map_on (fun names listed names' listed' same => ?_)
        ((sorted.filter _).imp fun less => ?_)
      · have h := (isListed names).1 listed
        have h' := (isListed names').1 listed'
        exact Path.joined_injective h.ne_nil h'.ne_nil
          (fun name member => (h.isName name member).noSeparator)
          (fun name member => (h'.isName name member).noSeparator) same
      · rintro rfl
        exact List.lt_irrefl _ less
    rw [← bytes] at once
    exact List.Nodup.of_map _ once

/-- The listing of a directory with files of two extensions, a hidden file, and a link back to it. -/
theorem markdownFiles_listing_loop :
    let entries : List (FileName × Entry) := [(FileName.ofChars "b.md".toList, .file .empty),
      (FileName.ofChars "a.md".toList, .file .empty), (FileName.ofChars "a.txt".toList, .file .empty),
      (FileName.ofChars ".c.md".toList, .file .empty),
      (FileName.ofChars "up".toList, .link (FileName.ofChars "../v".toList))]
    let v : DirectoryVault :=
      ⟨⟨[(FileName.ofChars "v".toList, .directory entries)]⟩, [], "v", "v", none⟩
    v.files.WellFormed ∧ ∃ listing : List (List FileName),
      v.markdownFiles.map (fun d => FileName.ofChars d.path.toList) = listing.map Path.joined ∧
      listing.Pairwise (· < ·) ∧ (∀ names, names ∈ listing ↔ v.IsListed names) ∧
      v.markdownFiles.Nodup ∧
      ((∀ l entries, v.lead? [] = some l → v.files.find? l ≠ some (.directory entries)) →
        v.markdownFiles = []) := by
  intro entries v
  have inner : (Entry.directory entries).WellFormed := by
    refine Entry.wellFormed_directory (by decide) (by decide) ?_
    simp [entries, Entry.wellFormed_file, Entry.wellFormed_link]
  have wf : v.files.WellFormed := by
    refine Entry.wellFormed_directory (by decide) (by decide) ?_
    intro p member
    rw [List.mem_singleton.1 member]
    exact inner
  exact ⟨wf, markdownFiles_listing wf⟩

end DirectoryVault

end VaultConsole
