import Mathlib.Data.List.Basic
import VaultConsole.Proofs.Paths

/-!
# Components of paths

What a path consists of when segments are put behind it. Segments without separators never take the place of what
was there (`components_below`), and names are found again behind the root that they were put behind
(`relative?_below`). So a path of names leads from a root to a path, and from there back to the same names
(`below_relative?`). To the file system the path below a root is the root followed by the segments
(`entryAt_below`).
-/

namespace VaultConsole

/-- A separator ends the segments before it. -/
theorem segmentsOf_append (front rest : List UInt8) :
    segmentsOf (front ++ separator :: rest) = segmentsOf front ++ segmentsOf rest :=
  Text.pieces_append_separator separator front rest

/-- A path without a separator is one segment. -/
theorem segmentsOf_plain {segment : List UInt8} (plain : separator ∉ segment) : segmentsOf segment = [segment] :=
  Text.pieces_of_notMem plain

theorem segmentsOf_ne_nil (path : List UInt8) : segmentsOf path ≠ [] := Text.pieces_ne_nil separator path

namespace Path

open Component

variable {path root segment : List UInt8} {segments : List FileName}

/-! ## One segment -/

/-- A segment behind nothing is the path. -/
theorem push_nil (segment : List UInt8) : push [] segment = segment := by
  unfold push
  split <;> simp

/-- A segment is set off from what was there by a separator, which may have been there already. -/
theorem exists_push (plain : separator ∉ segment) (filled : path ≠ []) :
    ∃ front, push path segment = front ++ separator :: segment ∧ (path = front ∨ path = front ++ [separator]) := by
  have relative : ¬ (segment.head? == Option.some separator) = true := fun first =>
    plain (List.mem_of_mem_head? (beq_iff_eq.1 first))
  rw [push, if_neg relative]
  split
  case isTrue closed =>
    -- The separator that is there already is the one that sets the segment off.
    have last := List.getLast?_eq_some_getLast filled
    rw [last, Option.all_some, beq_iff_eq] at closed
    have split := List.dropLast_append_getLast filled
    rw [closed] at split
    refine ⟨path.dropLast, ?_, .inr split.symm⟩
    rw [← split]
    simp
  case isFalse => exact ⟨path, rfl, .inl rfl⟩

theorem push_ne_nil (plain : separator ∉ segment) (filled : path ≠ []) : push path segment ≠ [] := by
  obtain ⟨front, pushed, -⟩ := exists_push plain filled
  rw [pushed]
  exact List.append_ne_nil_of_right_ne_nil front (List.cons_ne_nil _ _)

/-- What was there stays. -/
theorem prefix_push (plain : separator ∉ segment) : path <+: push path segment := by
  by_cases empty : path = []
  · rw [empty]
    exact List.nil_prefix
  · obtain ⟨front, pushed, rfl | rfl⟩ := exists_push plain empty
    · exact ⟨_, pushed.symm⟩
    · exact ⟨segment, by rw [pushed, List.append_assoc, List.singleton_append]⟩

/-- How a path begins is not changed by what comes behind a separator. -/
theorem opening_append (front rest rest' : List UInt8) :
    opening (front ++ separator :: rest) = opening (front ++ separator :: rest') := by
  have heads : ∀ rest, (segmentsOf (front ++ separator :: rest)).head? = (segmentsOf front).head? := by
    intro rest
    rw [segmentsOf_append, List.head?_append_of_ne_nil _ (segmentsOf_ne_nil front)]
  have firsts : ∀ rest rest', (front ++ separator :: rest).head? = (front ++ separator :: rest').head? := by
    intro rest rest'
    cases front with
    | nil => rfl
    | cons b front => rfl
  rw [opening, opening, heads rest, heads rest', firsts rest rest']

/-- A path that is not empty begins as it does with a separator at its end. -/
theorem opening_separator (filled : path ≠ []) : opening (path ++ [separator]) = opening path := by
  rw [opening, opening, segmentsOf_append, List.head?_append_of_ne_nil _ (segmentsOf_ne_nil path),
    List.head?_append_of_ne_nil _ filled]

theorem filterMap_cons (segment : FileName) (segments : List FileName) :
    (segment :: segments).filterMap ofSegment? = (ofSegment? segment).toList ++ segments.filterMap ofSegment? := by
  cases component : ofSegment? segment with
  | none => rw [List.filterMap_cons_none component]; rfl
  | some c => rw [List.filterMap_cons_some component]; rfl

/-- A segment adds the component that it is. -/
theorem components_push (plain : separator ∉ segment) (filled : path ≠ []) :
    components (push path segment) = components path ++ (ofSegment? segment).toList := by
  obtain ⟨front, pushed, whole⟩ := exists_push plain filled
  have behind : (segmentsOf (front ++ separator :: segment)).filterMap ofSegment? =
      (segmentsOf front).filterMap ofSegment? ++ (ofSegment? segment).toList := by
    rw [segmentsOf_append, segmentsOf_plain plain, List.filterMap_append, filterMap_cons]
    exact congrArg _ (List.append_nil _)
  have closing : (segmentsOf (front ++ [separator])).filterMap ofSegment? =
      (segmentsOf front).filterMap ofSegment? := by
    rw [segmentsOf_append, List.filterMap_append]
    exact List.append_nil _
  rw [pushed, components, behind, opening_append front segment [], ← List.append_assoc]
  obtain rfl | rfl := whole
  · rw [opening_separator filled, components]
  · rw [components, closing]

/-! ## Many segments -/

theorem prefix_below (plain : ∀ segment ∈ segments, separator ∉ segment) : root <+: below root segments := by
  induction segments generalizing root with
  | nil => exact List.prefix_rfl
  | cons segment segments ih =>
    exact (prefix_push (plain segment List.mem_cons_self)).trans (ih fun s hs => plain s (List.mem_cons_of_mem _ hs))

/-- Segments add the components that they are. -/
theorem components_below (filled : root ≠ []) (plain : ∀ segment ∈ segments, separator ∉ segment) :
    components (below root segments) = components root ++ segments.filterMap ofSegment? := by
  induction segments generalizing root with
  | nil => exact (List.append_nil _).symm
  | cons segment segments ih =>
    have first := plain segment List.mem_cons_self
    have step := ih (push_ne_nil first filled) fun s hs => plain s (List.mem_cons_of_mem _ hs)
    rw [below, List.foldl_cons, ← below, step, components_push first filled, List.append_assoc, filterMap_cons]

/-- No segment leads to the top. -/
theorem top_notMem_filterMap (segments : List FileName) : Component.top ∉ segments.filterMap ofSegment? := by
  intro member
  obtain ⟨segment, -, top⟩ := List.mem_filterMap.1 member
  unfold ofSegment? at top
  split at top
  · cases top
  · split at top
    · cases top
    · cases top

/-- A path without separators does not begin at the top. -/
theorem top_notMem_components (plain : separator ∉ path) : Component.top ∉ components path := by
  have relative : path.head? ≠ some separator := fun first => plain (List.mem_of_mem_head? first)
  rw [components, List.mem_append, not_or]
  refine ⟨?_, top_notMem_filterMap _⟩
  rw [opening, if_neg relative]
  split <;> simp

/-- The path of segments below nothing does not begin at the top. -/
theorem top_notMem_below_nil (plain : ∀ segment ∈ segments, separator ∉ segment) :
    Component.top ∉ components (below [] segments) := by
  induction segments with
  | nil => decide
  | cons segment segments ih =>
    have later := fun s hs => plain s (List.mem_cons_of_mem segment hs)
    rw [below, List.foldl_cons, push_nil, ← below]
    by_cases empty : segment = []
    · rw [empty]
      exact ih later
    · rw [components_below empty later, List.mem_append, not_or]
      exact ⟨top_notMem_components (plain segment List.mem_cons_self), top_notMem_filterMap _⟩

/-- The path of segments below a root has the components of the root and then others, none of which leads to the
top. -/
theorem exists_components_below (root : List UInt8) (plain : ∀ segment ∈ segments, separator ∉ segment) :
    ∃ rest, components (below root segments) = components root ++ rest ∧ Component.top ∉ rest := by
  by_cases empty : root = []
  · rw [empty]
    exact ⟨_, rfl, top_notMem_below_nil plain⟩
  · exact ⟨_, components_below empty plain, top_notMem_filterMap segments⟩

/-! ## Names -/

/-- A name is a component. -/
theorem ofSegment?_name {name : FileName} (isName : name.IsName) : ofSegment? name = some (.name name) := by
  have moves : ¬ (name = [] ∨ name = FileName.here) := not_or.2 ⟨isName.ne_nil, isName.ne_here⟩
  rw [ofSegment?, if_neg moves, if_neg isName.ne_parent]

theorem filterMap_names {names : List FileName} (isName : ∀ name ∈ names, name.IsName) :
    names.filterMap ofSegment? = names.map .name := by
  rw [List.filterMap_congr fun name member => ofSegment?_name (isName name member)]
  exact congrFun List.filterMap_eq_map names

theorem components_name {name : FileName} (isName : name.IsName) : components name = [.name name] := by
  have relative : name.head? ≠ some separator := fun first => isName.noSeparator (List.mem_of_mem_head? first)
  have single := segmentsOf_plain isName.noSeparator
  have moves : ([name] : List FileName).head? ≠ some FileName.here := fun first =>
    isName.ne_here (Option.some.inj first)
  rw [components, opening, if_neg relative, single, if_neg moves, filterMap_cons, ofSegment?_name isName]
  rfl

/-- Names are the components behind those of the root. -/
theorem components_below_names (root : List UInt8) {names : List FileName} (isName : ∀ name ∈ names, name.IsName) :
    components (below root names) = components root ++ names.map .name := by
  have plain : ∀ names : List FileName, (∀ name ∈ names, name.IsName) → ∀ name ∈ names, separator ∉ name :=
    fun names isName name member => (isName name member).noSeparator
  by_cases empty : root = []
  · -- Nothing sets the first name off from an empty root, so it is a path of its own.
    cases names with
    | nil => exact (List.append_nil _).symm
    | cons name names =>
      have first := isName name List.mem_cons_self
      have later := fun n hn => isName n (List.mem_cons_of_mem name hn)
      rw [empty, below, List.foldl_cons, push_nil, ← below, components_below first.ne_nil (plain names later),
        components_name first, filterMap_names later]
      rfl
  · rw [components_below empty (plain names isName), filterMap_names isName]

/-- What leads from a root to the path of names below it is the path of the names. -/
theorem relative?_below (root : List UInt8) {names : List FileName} (isName : ∀ name ∈ names, name.IsName) :
    relative? root (below root names) = ofNames? names := by
  have behind : (components root).isPrefixOf? (components (below root names)) = some (names.map .name) :=
    List.isPrefixOf?_eq_some_iff_append_eq.2 (components_below_names root isName).symm
  rw [relative?, behind, Option.bind_some, List.map_map]
  exact congrArg ofNames? (List.map_id names)

/-- The path that leads from a root to the path of names below it leads back there. -/
theorem below_relative? {root : List UInt8} {names : List FileName} (solid : names ≠ [])
    (isName : ∀ name ∈ names, name.IsName) {relative : String}
    (spelled : relative? root (below root names) = some relative) : Path.names relative = names := by
  rw [relative?_below root isName] at spelled
  exact names_of_joined solid (fun name member => (isName name member).noSeparator) (ofNames?_eq_some spelled).2

end Path

/-! ## Paths and the file system -/

namespace FileTree

variable {t : FileTree}

/-- An empty segment stays where it is, and what comes behind it finds the same directory. -/
theorem resolve_nil_cons (links : Nat) (here : Location) (segment : FileName) (rest : List FileName) :
    t.resolve links here ([] :: segment :: rest) = t.resolve links here (segment :: rest) := by
  cases isDirectory : t.find? here with
  | none => rw [resolve, resolve, isDirectory]
  | some e =>
    cases e with
    | file content => rw [resolve, resolve, isDirectory]
    | link target => rw [resolve, resolve, isDirectory]
    | directory entries => rw [resolve_directory isDirectory, if_pos (.inl rfl)]

/-- A segment is followed in the same way behind a path and after it. -/
theorem entryAt_push (base : Location) {path segment : List UInt8} (plain : separator ∉ segment)
    (rest : List FileName) :
    t.entryAt base (segmentsOf (Path.push path segment) ++ rest) =
      t.entryAt base (segmentsOf path ++ segment :: rest) := by
  have single := segmentsOf_plain plain
  by_cases empty : path = []
  · rw [empty, Path.push_nil, single, entryAt, entryAt, segmentsOf, Text.pieces, List.singleton_append,
      List.singleton_append, resolve_nil_cons]
    rfl
  · obtain ⟨front, pushed, whole⟩ := Path.exists_push plain empty
    have behind : segmentsOf (front ++ separator :: segment) ++ rest = segmentsOf front ++ segment :: rest := by
      rw [segmentsOf_append, single, List.append_assoc]
      rfl
    rw [pushed, behind]
    obtain rfl | rfl := whole
    · rfl
    · -- A path that ends with a separator has an empty segment more, which stays where it is.
      have closing : segmentsOf (front ++ [separator]) ++ segment :: rest =
          segmentsOf front ++ [] :: segment :: rest := by
        rw [segmentsOf_append, List.append_assoc]
        rfl
      have same : t.resolve maxLinks base (segmentsOf front ++ [] :: segment :: rest) =
          t.resolve maxLinks base (segmentsOf front ++ segment :: rest) := by
        rw [resolve_append, resolve_append]
        exact congrArg _ (funext fun r => resolve_nil_cons r.2 r.1 segment rest)
      rw [closing, entryAt, entryAt, same]
      simp

/-- The path of segments below a root is followed as the root and then the segments. -/
theorem entryAt_below (base : Location) {root : List UInt8} {segments : List FileName}
    (plain : ∀ segment ∈ segments, separator ∉ segment) :
    t.entryAt base (segmentsOf (Path.below root segments)) = t.entryAt base (segmentsOf root ++ segments) := by
  induction segments generalizing root with
  | nil => rw [List.append_nil]; rfl
  | cons segment segments ih =>
    rw [Path.below, List.foldl_cons, ← Path.below, ih fun s hs => plain s (List.mem_cons_of_mem _ hs)]
    exact entryAt_push base (plain segment List.mem_cons_self) segments

end FileTree

/-- A path that grows by a segment is still followed from the same place. -/
theorem origin_push (base : Location) {path segment : List UInt8} (plain : separator ∉ segment) :
    origin base (Path.push path segment) = origin base path := by
  by_cases empty : path = []
  · have relative : ¬ (segment.head? == some separator) = true := fun first =>
      plain (List.mem_of_mem_head? (beq_iff_eq.1 first))
    rw [empty, Path.push_nil, origin, if_neg relative]
    rfl
  · obtain ⟨front, pushed, rfl | rfl⟩ := Path.exists_push plain empty
    · rw [pushed, origin, origin, List.head?_append_of_ne_nil _ empty]
    · rw [pushed, origin, origin]
      cases front with
      | nil => rfl
      | cons b front => rfl

/-- The path of segments below a root is followed from where the root is. -/
theorem origin_below (base : Location) {root : List UInt8} {segments : List FileName}
    (plain : ∀ segment ∈ segments, separator ∉ segment) :
    origin base (Path.below root segments) = origin base root := by
  induction segments generalizing root with
  | nil => rfl
  | cons segment segments ih =>
    rw [Path.below, List.foldl_cons, ← Path.below, ih fun s hs => plain s (List.mem_cons_of_mem _ hs)]
    exact origin_push base (plain segment List.mem_cons_self)

/-- The segments of a path have no separators. -/
theorem Path.separator_notMem_names (path : String) : ∀ segment ∈ Path.names path, separator ∉ segment := by
  rw [Path.names_eq]
  exact fun segment member => Text.notMem_of_mem_pieces member

namespace DirectoryVault

/-- What is found at the path of a document is what the segments of the vault and those of the document lead to. -/
theorem entryAt_absolute (v : DirectoryVault) (d : Document) :
    let path := absolute v.root.toUTF8.toList d
    v.files.entryAt (origin v.base path) (segmentsOf path) = v.files.entryAt v.start (v.pathOf d) := by
  have plain := Path.separator_notMem_names d.path
  simp only [absolute, origin_below v.base plain, FileTree.entryAt_below _ plain, pathOf, Path.names_eq v.root]
  rfl

theorem read_eq (v : DirectoryVault) (d : Document) :
    v.read d = (v.files.readText v.start (v.pathOf d)).mapError ReadFault.file := by
  simp only [read, FileTree.readText, entryAt_absolute]

end DirectoryVault

end VaultConsole
