import VaultConsole.Files.Update
import VaultConsole.Proofs.Resolution
import VaultConsole.Proofs.Utf8

/-!
# Files that are written and read

Writing a file changes what one name of one directory stands for, and nothing there changes its kind
(`Keeps`), so that a path leads after it where it led before. Hence what was written is read under the same
path again (`entryAt_writeFile`), whatever links are on the way.
-/

namespace VaultConsole

namespace Entry

/-! ## Changes that keep what is there -/

/-- Entries of one kind: two files, two directories, or the same link. -/
inductive SameKind : Entry → Entry → Prop where
  | file (content content' : ByteArray) : SameKind (.file content) (.file content')
  | directory (entries entries' : List (FileName × Entry)) : SameKind (.directory entries) (.directory entries')
  | link (target : List UInt8) : SameKind (.link target) (.link target)

theorem SameKind.rfl {e : Entry} : e.SameKind e := by
  cases e with
  | file content => exact .file content content
  | directory entries => exact .directory entries entries
  | link target => exact .link target

/-- Whether what is found at a location is found there still, as an entry of its kind. -/
def Keeps (e e' : Entry) : Prop := ∀ l a, e.find? l = some a → ∃ a', e'.find? l = some a' ∧ a.SameKind a'

theorem Keeps.rfl {e : Entry} : e.Keeps e := fun _ a found => ⟨a, found, .rfl⟩

theorem keeps_file (content content' : ByteArray) : (file content).Keeps (file content') := by
  intro l a found
  cases l with
  | nil =>
    obtain rfl := Option.some.inj found
    exact ⟨_, Eq.refl _, .file content content'⟩
  | cons name names => simp [find?] at found

/-- A directory keeps what is there if all its entries do. -/
theorem keeps_directory {entries entries' : List (FileName × Entry)}
    (each : ∀ name e, entries.lookup name = some e → ∃ e', entries'.lookup name = some e' ∧ e.Keeps e') :
    (directory entries).Keeps (directory entries') := by
  intro l a found
  cases l with
  | nil =>
    obtain rfl := Option.some.inj found
    exact ⟨_, Eq.refl _, .directory entries entries'⟩
  | cons name names =>
    simp only [find?] at found ⊢
    obtain ⟨e, listed, below⟩ := Option.bind_eq_some_iff.1 found
    obtain ⟨e', listed', keeps⟩ := each name e listed
    rw [listed', Option.bind_some]
    exact keeps names a below

end Entry

theorem lookup_putEntry (name s : FileName) (e : Entry) (entries : List (FileName × Entry)) :
    (putEntry name e entries).lookup s = if s == name then some e else entries.lookup s := by
  induction entries with
  | nil =>
    rw [putEntry, List.lookup_cons]
    cases s == name <;> rfl
  | cons p entries ih =>
    obtain ⟨n, old⟩ := p
    rw [putEntry]
    by_cases put : (n == name) = true
    · rw [if_pos put, List.lookup_cons, List.lookup_cons, eq_of_beq put]
      cases s == name <;> rfl
    · rw [if_neg put, List.lookup_cons, List.lookup_cons]
      cases same : s == n with
      | true => rw [eq_of_beq same, if_neg put]
      | false => exact ih

namespace Entry

/-- An entry that takes the place of one that it keeps. -/
theorem keeps_putEntry {name : FileName} {e : Entry} {entries : List (FileName × Entry)}
    (keeps : ∀ old, entries.lookup name = some old → old.Keeps e) :
    (directory entries).Keeps (directory (putEntry name e entries)) := by
  refine keeps_directory fun s old listed => ?_
  rw [lookup_putEntry]
  by_cases same : (s == name) = true
  · exact ⟨e, if_pos same, keeps old (eq_of_beq same ▸ listed)⟩
  · exact ⟨old, (if_neg same).trans listed, .rfl⟩

/-- What a change of one directory comes to: the directory is changed, and if it keeps what is there, all is
kept. -/
theorem modify_spec {f : List (FileName × Entry) → List (FileName × Entry)} {e : Entry} {l : Location}
    {entries : List (FileName × Entry)} (isDirectory : e.find? l = some (.directory entries))
    (keeps : (directory entries).Keeps (directory (f entries))) :
    (e.modify f l).find? l = some (.directory (f entries)) ∧ e.Keeps (e.modify f l) := by
  induction l generalizing e with
  | nil =>
    obtain rfl := Option.some.inj isDirectory
    exact ⟨Eq.refl _, keeps⟩
  | cons name names ih =>
    cases e with
    | file content => simp [find?] at isDirectory
    | link target => simp [find?] at isDirectory
    | directory outer =>
      simp only [find?] at isDirectory
      obtain ⟨e, listed, below⟩ := Option.bind_eq_some_iff.1 isDirectory
      obtain ⟨changed, kept⟩ := ih below
      simp only [modify, listed]
      -- The entry on the way is put back changed, and it keeps what it had.
      refine ⟨?_, keeps_putEntry fun old same => ?_⟩
      · simp only [find?, lookup_putEntry, beq_self_eq_true, if_true, Option.bind_some]
        exact changed
      · obtain rfl := Option.some.inj (listed.symm.trans same)
        exact kept

end Entry

namespace FileTree

/-- Whether what is found in a tree is found there still. -/
def Keeps (t t' : FileTree) : Prop := (Entry.directory t.entries).Keeps (.directory t'.entries)

theorem directory_modify (t : FileTree) (l : Location)
    (f : List (FileName × Entry) → List (FileName × Entry)) :
    Entry.directory (t.modify l f).entries = (Entry.directory t.entries).modify f l := by
  have still : ∃ entries, (Entry.directory t.entries).modify f l = .directory entries := by
    cases l with
    | nil => exact ⟨_, rfl⟩
    | cons name names =>
      rw [Entry.modify]
      split
      · exact ⟨_, rfl⟩
      · exact ⟨_, rfl⟩
  obtain ⟨entries, changed⟩ := still
  rw [modify, changed]

/-- A file is put where nothing was, or in the place of a file. -/
theorem put_file {t : FileTree} {l : Location} {entries : List (FileName × Entry)}
    (isDirectory : t.find? l = some (.directory entries)) {name : FileName}
    (free : ∀ old, entries.lookup name = some old → ∃ content, old = .file content) (content : ByteArray) :
    (t.put l name (.file content)).find? l = some (.directory (putEntry name (.file content) entries)) ∧
      t.Keeps (t.put l name (.file content)) := by
  have keeps : (Entry.directory entries).Keeps (.directory (putEntry name (.file content) entries)) := by
    refine Entry.keeps_putEntry fun old listed => ?_
    obtain ⟨content', rfl⟩ := free old listed
    exact Entry.keeps_file content' content
  have changed := Entry.modify_spec (f := putEntry name (.file content)) isDirectory keeps
  rw [← directory_modify] at changed
  exact changed

/-- Directories are kept with what they have. -/
theorem Keeps.directory {t t' : FileTree} (keeps : t.Keeps t') {l : Location} {entries : List (FileName × Entry)}
    (found : t.find? l = some (.directory entries)) :
    ∃ entries', t'.find? l = some (.directory entries') ∧ ∀ name e, entries.lookup name = some e →
      ∃ e', entries'.lookup name = some e' ∧ e.SameKind e' := by
  obtain ⟨e', found', same⟩ := keeps l _ found
  cases same with
  | directory _ entries' =>
    refine ⟨entries', found', fun name e listed => ?_⟩
    rw [← find?_append_name found] at listed
    rw [← find?_append_name found']
    exact keeps _ _ listed

/-- Paths lead where they led. -/
theorem Keeps.resolve {t t' : FileTree} (keeps : t.Keeps t') {links : Nat} {here : Location}
    {segments : List FileName} {r : Location × Nat} (leads : t.resolve links here segments = .ok r) :
    t'.resolve links here segments = .ok r := by
  -- Directories and links are kept under their names, so each segment leads where it led.
  induction links, here, segments using resolve.induct t with
  | case1 links here =>
    rw [resolve_nil] at leads ⊢
    exact leads
  | case2 links here s rest entries isDirectory stays ih =>
    obtain ⟨entries', isDirectory', -⟩ := keeps.directory isDirectory
    rw [resolve_directory isDirectory, if_pos stays] at leads
    rw [resolve_directory isDirectory', if_pos stays]
    exact ih leads
  | case3 links here rest entries isDirectory moves ih =>
    obtain ⟨entries', isDirectory', -⟩ := keeps.directory isDirectory
    rw [resolve_directory isDirectory, if_neg moves, if_pos rfl] at leads
    rw [resolve_directory isDirectory', if_neg moves, if_pos rfl]
    exact ih leads
  | case4 links here s rest entries isDirectory moves down long =>
    rw [resolve_directory isDirectory, if_neg moves, if_neg down, if_pos long] at leads
    cases leads
  | case5 links here s rest entries isDirectory moves down short missing =>
    rw [resolve_directory isDirectory, if_neg moves, if_neg down, if_neg short, missing] at leads
    cases leads
  | case6 here s rest entries isDirectory moves down short target isLink =>
    rw [resolve_directory isDirectory, if_neg moves, if_neg down, if_neg short, isLink] at leads
    cases leads
  | case7 here s rest entries isDirectory moves down short target isLink links ih =>
    obtain ⟨entries', isDirectory', each⟩ := keeps.directory isDirectory
    obtain ⟨e', listed', same⟩ := each s _ isLink
    cases same with
    | link =>
      rw [resolve_directory isDirectory, if_neg moves, if_neg down, if_neg short, isLink] at leads
      rw [resolve_directory isDirectory', if_neg moves, if_neg down, if_neg short, listed']
      exact ih leads
  | case8 links here s rest entries isDirectory moves down short e noLink isEntry ih =>
    obtain ⟨entries', isDirectory', each⟩ := keeps.directory isDirectory
    obtain ⟨e', listed', same⟩ := each s _ isEntry
    rw [resolve_directory isDirectory, if_neg moves, if_neg down, if_neg short, isEntry] at leads
    rw [resolve_directory isDirectory', if_neg moves, if_neg down, if_neg short, listed']
    cases same with
    | file content content' => exact ih leads
    | directory inner inner' => exact ih leads
    | link target => exact absurd rfl (noLink target)
  | case9 links here s rest e noDirectory isEntry =>
    rw [FileTree.resolve, isEntry] at leads
    cases e with
    | directory entries => exact absurd rfl (noDirectory entries)
    | file content => cases leads
    | link target => cases leads
  | case10 links here s rest missing =>
    rw [FileTree.resolve, missing] at leads
    cases leads

/-! ## Writing a file -/

/-- A path that ends in a name is the way to it and the name. -/
theorem lastName?_eq {segments way : List FileName} {name : FileName}
    (ends : lastName? segments = some (way, name)) (noSlash : segments.getLast? ≠ some []) :
    segments = way ++ [name] ∧ name ≠ [] := by
  rw [lastName?] at ends
  cases backwards : segments.reverse with
  | nil =>
    rw [backwards] at ends
    cases ends
  | cons last before =>
    have split : segments = before.reverse ++ [last] := by
      rw [← List.reverse_cons, ← backwards, List.reverse_reverse]
    have solid : last ≠ [] := by
      rintro rfl
      exact noSlash (by rw [split, List.getLast?_concat])
    rw [backwards, List.dropWhile_cons_of_neg (by simpa using solid)] at ends
    cases ends
    exact ⟨split, solid⟩

/-- A path goes on to what its last name stands for. -/
theorem resolve_last {t : FileTree} {links left : Nat} {here l : Location} {way : List FileName}
    {name : FileName} {entries : List (FileName × Entry)} (leads : t.resolve links here way = .ok (l, left))
    (isDirectory : t.find? l = some (.directory entries))
    (named : name ≠ [] ∧ name ≠ FileName.here ∧ name ≠ FileName.parent)
    (short : ¬FileName.maxLength < name.length) {e : Entry} (listed : entries.lookup name = some e) :
    (∀ content, e = .file content → t.resolve links here (way ++ [name]) = .ok (l ++ [name], left)) ∧
      ∀ target further, e = .link target → left = further + 1 →
        t.resolve links here (way ++ [name]) = t.follow further l target := by
  have moves : ¬(name = [] ∨ name = FileName.here) := fun stays => stays.elim named.1 named.2.1
  have last : t.resolve links here (way ++ [name]) = t.resolve left l [name] := by
    rw [resolve_append, leads]
    rfl
  rw [last, resolve_directory isDirectory, if_neg moves, if_neg named.2.2, if_neg short, listed]
  constructor
  · rintro content rfl
    exact resolve_nil t left (l ++ [name])
  · rintro target further rfl rfl
    simp only [List.append_nil, follow]

/-- A file is placed in a directory, where there is nothing or a file. Once it is there, and all else is kept,
the path leads to it. -/
theorem placeOf_spec {t : FileTree} {links : Nat} {here l : Location} {segments : List FileName} {name : FileName}
    (place : t.placeOf links here segments = .ok (l, name)) :
    ∃ entries, t.find? l = some (.directory entries) ∧
      (∀ old, entries.lookup name = some old → ∃ content, old = .file content) ∧
      ∀ t' content, t.Keeps t' → t'.find? (l ++ [name]) = some (.file content) →
        ∃ left, t'.resolve links here segments = .ok (l ++ [name], left) := by
  -- Induction on the links that are followed; where there is no link, the file is placed.
  fun_induction placeOf t links here segments with
  | case1 => cases place
  | case2 => cases place
  | case3 => cases place
  | case4 => cases place
  | case5 => cases place
  | case6 => cases place
  | case7 links here segments way name' ends l' entries' isDirectory named short target isLink left leads _ ih =>
    obtain ⟨entries, found, free, later⟩ := ih place
    refine ⟨entries, found, free, fun t' content keeps isFile => ?_⟩
    rw [not_or, not_or] at named
    obtain ⟨rfl, solid⟩ := lastName?_eq ends named.1
    obtain ⟨entries', isDirectory', each⟩ := keeps.directory isDirectory
    obtain ⟨e', listed', same⟩ := each name' _ isLink
    cases same with
    | link =>
      rw [(resolve_last (keeps.resolve leads) isDirectory' ⟨solid, named.2⟩ short listed').2 target left rfl rfl]
      exact later t' content keeps isFile
  | case8 links here segments way name' ends l' left leads entries isDirectory named short noDirectory noLink =>
    cases place
    refine ⟨entries, isDirectory, fun old listed => ?_, fun t' content keeps isFile => ?_⟩
    · cases old with
      | file content => exact ⟨content, rfl⟩
      | directory inner => exact absurd listed (noDirectory inner)
      | link target => exact absurd listed (noLink target)
    · rw [not_or, not_or] at named
      obtain ⟨rfl, solid⟩ := lastName?_eq ends named.1
      obtain ⟨entries', isDirectory', -⟩ := keeps.directory isDirectory
      rw [find?_append_name isDirectory'] at isFile
      exact ⟨left, (resolve_last (keeps.resolve leads) isDirectory' ⟨solid, named.2⟩ short isFile).1 content rfl⟩
  | case9 => cases place
  | case10 => cases place

/-- **What was written to a file is read from it.** -/
theorem entryAt_writeFile {t t' : FileTree} {here : Location} {segments : List FileName} {content : ByteArray}
    (written : t.writeFile here segments content = .ok t') : t'.entryAt here segments = .ok (.file content) := by
  unfold writeFile writePlace at written
  split at written
  · cases written
  · rename_i l name place
    obtain rfl := Except.ok.inj written
    split at place
    · cases place
    · rename_i noNul
      split at place
      · cases place
      · obtain ⟨entries, isDirectory, free, reached⟩ := placeOf_spec place
        obtain ⟨isDirectory', keeps⟩ := put_file isDirectory free content
        have isFile : (t.put l name (.file content)).find? (l ++ [name]) = some (.file content) := by
          rw [find?_append_name isDirectory', lookup_putEntry, if_pos (beq_self_eq_true name)]
        obtain ⟨left, leads⟩ := reached _ content keeps isFile
        rw [entryAt, if_neg noNul, leads]
        simp only [isFile]

/-- A text that was written is read as the text. -/
theorem readText_writeFile {t t' : FileTree} {here : Location} {segments : List FileName} {text : String}
    (written : t.writeFile here segments text.toUTF8 = .ok t') : t'.readText here segments = .ok text := by
  rw [readText, entryAt_writeFile written]
  simp only [Text.Utf8.decode_eq_ok.2 rfl]

end FileTree

end VaultConsole
