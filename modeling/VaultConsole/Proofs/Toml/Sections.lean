import VaultConsole.Proofs.Toml.Lines

/-!
# Documents of sections

A document of headers, each with fields after it, is read as the table of its tables, in the order of the
document (`read?_sections`), if no header and no field of a section comes twice.
-/

namespace VaultConsole.Toml

/-- A section: its name, and its fields with their values. -/
structure Table where
  name : String
  fields : List (String × Toml)

namespace Table

/-- The statements of a section: its header, and an assignment for each field. -/
def statements (t : Table) : List Statement :=
  .table [t.name] :: t.fields.map fun f => .assignment [f.1] (.scalar f.2)

/-- What stands for a section while a document is read. -/
def part (t : Table) : String × Part := (t.name, .table false false (t.fields.map fun f => (f.1, .closed f.2)))

/-- The entry that a section is. -/
def entry (t : Table) : String × Toml := (t.name, .table t.fields)

theorem map_fst_part (ts : List Table) : (ts.map part).map Prod.fst = ts.map Table.name := by
  simp [part]

end Table

/-! ## A statement after the other -/

section

variable {es fs : List (String × Part)} {k f : String}

theorem lookup_eq_none (fresh : k ∉ es.map Prod.fst) : es.lookup k = none := by
  rw [List.lookup_eq_none_iff]
  intro e member
  have differs : k ≠ e.1 := fun same => fresh (same ▸ List.mem_map_of_mem member)
  simpa using differs

/-- What is put under a key goes after the entries of other keys. -/
theorem putPart_append (fresh : k ∉ es.map Prod.fst) (p : Part) (later : List (String × Part)) :
    putPart k p (es ++ later) = es ++ putPart k p later := by
  induction es with
  | nil => rfl
  | cons e es ih =>
    obtain ⟨key, old⟩ := e
    rw [List.map_cons, List.mem_cons, not_or] at fresh
    have differs : (key == k) = false := by
      simpa using Ne.symm fresh.1
    rw [List.cons_append, putPart, differs]
    simp [ih fresh.2]

theorem putPart_new (fresh : k ∉ es.map Prod.fst) (p : Part) : putPart k p es = es ++ [(k, p)] := by
  have put := putPart_append fresh p []
  rwa [List.append_nil] at put

/-- A header opens a table that is empty. -/
theorem add?_table (fresh : k ∉ es.map Prod.fst) (current : Key) :
    Draft.add? ⟨⟨false, false, es⟩, current⟩ (.table [k]) =
      some ⟨⟨false, false, es ++ [(k, .table false false [])]⟩, [k]⟩ := by
  simp [Draft.add?, splitKey?, descend, openTable, lookup_eq_none fresh, putPart_new fresh]

/-- An assignment puts a value into the table that was opened last. -/
theorem add?_assignment (fresh : k ∉ es.map Prod.fst) (fresh' : f ∉ fs.map Prod.fst) (v : Toml) :
    Draft.add? ⟨⟨false, false, es ++ [(k, .table false false fs)]⟩, [k]⟩ (.assignment [f] (.scalar v)) =
      some ⟨⟨false, false, es ++ [(k, .table false false (fs ++ [(f, .closed v)]))]⟩, [k]⟩ := by
  have found : (es ++ [(k, Part.table false false fs)]).lookup k = some (.table false false fs) := by
    rw [List.lookup_append, lookup_eq_none fresh, Option.none_or, List.lookup_cons_self]
  have assigned : assign [f] v ⟨false, false, fs⟩ = some ⟨false, false, fs ++ [(f, .closed v)]⟩ := by
    simp [assign, splitKey?, descend, lookup_eq_none fresh', putPart_new fresh']
  have put : ∀ p, putPart k p (es ++ [(k, .table false false fs)]) = es ++ [(k, p)] := by
    intro p
    rw [putPart_append fresh, putPart, if_pos (beq_self_eq_true k)]
  simp [Draft.add?, Term.value?, descend, found, assigned, put]

/-- The fields of a section are put into its table one after the other. -/
theorem addAll?_assignments (fresh : k ∉ es.map Prod.fst) (fields : List (String × Toml))
    (distinct : (fs.map Prod.fst ++ fields.map Prod.fst).Nodup) (later : List Statement) :
    Draft.addAll? ⟨⟨false, false, es ++ [(k, .table false false fs)]⟩, [k]⟩
        ((fields.map fun f => .assignment [f.1] (.scalar f.2)) ++ later) =
      Draft.addAll? ⟨⟨false, false, es ++
        [(k, .table false false (fs ++ fields.map fun f => (f.1, .closed f.2)))]⟩, [k]⟩ later := by
  -- Each step moves a field to the ones in the table, which stay apart by name from those to come.
  induction fields generalizing fs with
  | nil => simp
  | cons f fields ih =>
    obtain ⟨name, v⟩ := f
    rw [List.map_cons] at distinct
    have fresh' : name ∉ fs.map Prod.fst := fun member =>
      (List.nodup_append.1 distinct).2.2 _ member _ List.mem_cons_self rfl
    have distinct' : ((fs ++ [(name, Part.closed v)]).map Prod.fst ++ fields.map Prod.fst).Nodup := by
      simpa using distinct
    rw [List.map_cons, List.cons_append, Draft.addAll?, add?_assignment fresh fresh', Option.bind_some, ih distinct']
    simp

end

/-- The sections of a document are put into its table one after the other. -/
theorem addAll?_sections (done todo : List Table) (distinct : ((done ++ todo).map Table.name).Nodup)
    (each : ∀ t ∈ todo, (t.fields.map Prod.fst).Nodup) (current : Key) :
    ∃ current', Draft.addAll? ⟨⟨false, false, done.map Table.part⟩, current⟩ (todo.flatMap Table.statements) =
      some ⟨⟨false, false, (done ++ todo).map Table.part⟩, current'⟩ := by
  -- Each step moves a section to the ones that are done. Which table is open then does not matter: the
  -- next header opens another one.
  induction todo generalizing done current with
  | nil => exact ⟨current, by simp [Draft.addAll?]⟩
  | cons t todo ih =>
    have fresh : t.name ∉ (done.map Table.part).map Prod.fst := by
      rw [Table.map_fst_part]
      rw [List.map_append] at distinct
      exact fun member => (List.nodup_append.1 distinct).2.2 _ member _ List.mem_cons_self rfl
    have fields := @addAll?_assignments _ [] t.name fresh t.fields (by simpa using each t List.mem_cons_self)
      (todo.flatMap Table.statements)
    obtain ⟨current', later⟩ := ih (done ++ [t]) (by simpa using distinct)
      (fun u hu => each u (List.mem_cons_of_mem t hu)) [t.name]
    refine ⟨current', ?_⟩
    rw [List.flatMap_cons, Table.statements, List.cons_append, Draft.addAll?, add?_table fresh, Option.bind_some,
      fields]
    simpa [Table.part] using later

/-! ## The table of a document -/

theorem entryValues_part (ts : List Table) : entryValues (ts.map Table.part) = ts.map Table.entry := by
  have closed : ∀ fields : List (String × Toml),
      entryValues (fields.map fun f => (f.1, .closed f.2)) = fields := by
    intro fields
    induction fields with
    | nil => rfl
    | cons f fields ih => rw [List.map_cons, entryValues, ih, Part.value]
  induction ts with
  | nil => rfl
  | cons t ts ih => rw [List.map_cons, List.map_cons, Table.part, entryValues, ih, Part.value, closed, Table.entry]

/-- The mark that may stand at the start of a text begins no line. -/
theorem IsLine.noMark {c : Char} {cs : List Char} {statement? : Option Statement}
    (read : IsLine (c :: cs) statement?) : c ≠ byteOrderMark := by
  rintro rfl
  have unread : ∀ r, line? (byteOrderMark :: r) = none := fun _ => rfl
  have read := read.read []
  rw [List.cons_append, unread] at read
  cases read

/-- **Lines are read as the sections that they show.** -/
theorem read?_sections {written : List (List Char × Option Statement)} (lines : ∀ l ∈ written, IsLine l.1 l.2)
    {ts : List Table} (shown : written.filterMap Prod.snd = ts.flatMap Table.statements)
    (distinct : (ts.map Table.name).Nodup) (each : ∀ t ∈ ts, (t.fields.map Prod.fst).Nodup) :
    Toml.read? (String.ofList (written.map Prod.fst).flatten) = some (ts.map Table.entry) := by
  have statements : statements? (String.ofList (written.map Prod.fst).flatten) =
      some (ts.flatMap Table.statements) := by
    have all := lines?_flatten lines [] (Nat.le_refl _)
    rw [List.reverse_nil, List.nil_append, shown] at all
    -- What is read would lose a mark at its start, so the first line must not begin with one.
    have unmarked : ∀ c r, (written.map Prod.fst).flatten = c :: r → c ≠ byteOrderMark := by
      intro c r begins
      cases written with
      | nil => cases begins
      | cons l written =>
        have first := lines l List.mem_cons_self
        obtain ⟨line, statement?⟩ := l
        obtain ⟨d, ds, rfl⟩ := List.exists_cons_of_ne_nil first.filled
        obtain rfl : d = c := (List.cons.inj begins).1
        exact first.noMark
    rw [statements?, String.toList_ofList]
    cases begins : (written.map Prod.fst).flatten with
    | nil => rwa [begins] at all
    | cons c r =>
      rw [begins] at all
      simpa [unmarked c r begins] using all
  obtain ⟨current, table⟩ := addAll?_sections [] ts distinct each []
  rw [Toml.read?, statements, Option.bind_some, Draft.empty]
  rw [List.map_nil] at table
  simp [table, entryValues_part]

end VaultConsole.Toml
