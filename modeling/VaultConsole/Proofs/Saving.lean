import VaultConsole.Config.Saving
import VaultConsole.Config.Search
import VaultConsole.Proofs.Documents
import VaultConsole.Proofs.Writing

/-!
# Configurations that are saved and read

A configuration is written as rows of a document (`toList_toToml`) that shows all fields with a value (`saved`), so
it is the configuration that the document is read as (`ofText_toToml`). What is written to a file is read from it,
so saving a configuration and reading the file gives it back (`save_ofFile`).
-/

namespace VaultConsole.ConsoleConfig

open Toml

/-! ## Rows that are saved -/

namespace Row

/-- The header of a section. -/
def header (kind : Section) : Row := ⟨.none, some (.header kind), .none, .none, .bare⟩

/-- A field, with a space on either side of the equals sign. -/
def field {kind : Section} (f : Field kind) : Row := ⟨.none, some (.field f), .one, .one, .bare⟩

/-- A row that is empty. -/
def empty : Row := ⟨.none, none, .none, .none, .bare⟩

theorem chars_header (kind : Section) : (header kind).chars = writeHeader kind.name := by
  simp [header, chars, Item.chars, writeHeader, Blanks.none, LineEnd.bare, LineEnd.chars, LineEnd.comment,
    LineEnd.newline]

theorem chars_field {kind : Section} (f : Field kind) : (field f).chars = writeField f.name f.value.written := by
  simp [field, chars, Item.chars, writeField, Blanks.none, Blanks.one, LineEnd.bare, LineEnd.chars, LineEnd.comment,
    LineEnd.newline]

end Row

/-! ## Sections that are saved -/

namespace Block

/-- The section of the engine as it is saved. -/
def engine (c : EngineConfig) (fits : ∀ n ∈ c.memoryLimit?, n ≤ maxMemoryLimit) : Block where
  kind := .engine
  fields := .chunkName c.chunkName :: (c.memoryLimit?.pmap .memoryLimit fits).toList
  distinct := by
    obtain ⟨name, limit?⟩ := c
    cases limit? with
    | none => simp
    | some n => simp [Field.name]

/-- The section of the vault as it is saved. -/
def vault (c : VaultConfig) : Block where
  kind := .vault
  fields := .root c.root :: (c.active?.map .active).toList
  distinct := by
    obtain ⟨root, active?⟩ := c
    cases active? with
    | none => simp
    | some path => simp [Field.name]

/-- The section on what is logged as it is saved. -/
def logging (level : Level) : Block := ⟨.logging, [.level level], by simp⟩

/-- The rows of a section that is saved. -/
def rows (b : Block) : List Row := .header b.kind :: b.fields.map .field

theorem item?_rows (b : Block) : b.rows.filterMap Row.item? = b.items := by
  have header : Row.item? (.header b.kind) = some (.header b.kind) := rfl
  have fields : (Row.item? ∘ fun f : Field b.kind => .field f) = some ∘ Item.field := rfl
  rw [rows, items, List.filterMap_cons_some header, List.filterMap_map, fields, List.filterMap_eq_map]

theorem chars_rows (b : Block) : b.rows.flatMap Row.chars =
    writeHeader b.kind.name ++ b.fields.flatMap fun f => writeField f.name f.value.written := by
  simp [rows, Row.chars_header, Row.chars_field, List.flatMap_map]

theorem chars_engine (c : EngineConfig) (fits : ∀ n ∈ c.memoryLimit?, n ≤ maxMemoryLimit) :
    (engine c fits).rows.flatMap Row.chars = writeEngine c := by
  obtain ⟨name, limit?⟩ := c
  rw [chars_rows]
  cases limit? with
  | none => simp [engine, writeEngine, writeField?, Section.name, Field.name, Field.value, Scalar.written]
  | some n => simp [engine, writeEngine, writeField?, Section.name, Field.name, Field.value, Scalar.written]

theorem chars_vault (c : VaultConfig) : (vault c).rows.flatMap Row.chars = writeVault c := by
  obtain ⟨root, active?⟩ := c
  rw [chars_rows]
  cases active? with
  | none => simp [vault, writeVault, writeField?, Section.name, Field.name, Field.value, Scalar.written]
  | some path => simp [vault, writeVault, writeField?, Section.name, Field.name, Field.value, Scalar.written]

theorem chars_logging (level : Level) : (logging level).rows.flatMap Row.chars = writeLevel level := by
  rw [chars_rows]
  simp [logging, writeLevel, Section.name, Field.name, Field.value, Scalar.written]

end Block

/-! ## Configurations that are saved -/

section

variable (c : ConsoleConfig) (fits : ∀ n ∈ c.engine.memoryLimit?, n ≤ maxMemoryLimit)

/-- What a saved configuration shows. -/
def saved : Outline where
  blocks := [.engine c.engine fits, .vault c.vault, .logging c.level]
  distinct := by simp [Block.engine, Block.vault, Block.logging, Section.name]

/-- The rows of a saved configuration. -/
def savedRows : List Row :=
  (Block.engine c.engine fits).rows ++ .empty :: (Block.vault c.vault).rows ++ .empty :: (Block.logging c.level).rows

/-- What shows all fields gives the configuration itself. -/
theorem config_saved : (saved c fits).config = c := by
  obtain ⟨⟨name, limit?⟩, ⟨root, active?⟩, level⟩ := c
  cases limit? with
  | none => cases active? <;> rfl
  | some n => cases active? <;> rfl

theorem item?_savedRows : (savedRows c fits).filterMap Row.item? = (saved c fits).items := by
  simp [savedRows, saved, Outline.items, Block.item?_rows, Row.empty]

/-- A configuration is written as its rows. -/
theorem toList_toToml : c.toToml.toList = (savedRows c fits).flatMap Row.chars := by
  have empty : Row.empty.chars = ['\n'] := rfl
  simp [toToml, savedRows, Block.chars_engine, Block.chars_vault, Block.chars_logging, empty]

include fits in
/-- **A configuration is read back from the document that it is written as.** -/
theorem ofText_toToml : ofText .toml c.toToml = .ok c := by
  have shown := (saved c fits).shown_rows (savedRows c fits) (item?_savedRows c fits)
  rw [← toList_toToml, String.ofList_toList] at shown
  rw [Outline.ofText_of_shown shown, config_saved]
  rfl

end

/-- The files after an attempt to save. -/
def filesAfter (t : FileTree) : Except ConfigFault FileTree → FileTree
  | .ok t' => t'
  | .error _ => t

/-- **Saving a configuration loses nothing.** Where a configuration could be saved, the same one is read, for
every memory limit that a configuration can name; it can be saved wherever some file can be written. If there
is no text for a configuration, the fault is one of the text, and the files are left alone. -/
theorem save_ofFile (c : ConsoleConfig) (fits : ∀ n ∈ c.engine.memoryLimit?, n ≤ maxMemoryLimit)
    (t : FileTree) (here : Location) (segments : List FileName) :
    (∀ t', c.save t here segments = .ok t' → ofFile .toml t' here segments = .ok c) ∧
    ((∃ content t', t.writeFile here segments content = .ok t') → ∃ t', c.save t here segments = .ok t') ∧
    ∀ write : ConsoleConfig → Option String, write c = none →
      c.saveBy write t here segments = .error .malformed ∧
      filesAfter t (c.saveBy write t here segments) = t := by
  refine ⟨fun t' saved => ?_, ?_, fun write fails => ?_⟩
  · rw [save, saveBy] at saved
    cases written : t.writeFile here segments c.toToml.toUTF8 with
    | error fault =>
      simp only [written] at saved
      cases saved
    | ok changed =>
      simp only [written] at saved
      obtain rfl := Except.ok.inj saved
      rw [ofFile, FileTree.readText_writeFile written]
      exact ofText_toToml c fits
  · rintro ⟨content, t', written⟩
    rw [FileTree.writeFile] at written
    -- Whether a file can be written depends on its place, and not on its content.
    cases place : t.writePlace here segments with
    | error fault =>
      rw [place] at written
      cases written
    | ok there =>
      refine ⟨t.put there.1 there.2 (.file c.toToml.toUTF8), ?_⟩
      rw [save, saveBy]
      simp only [FileTree.writeFile, place]
  · have failed : c.saveBy write t here segments = .error .malformed := by
      rw [saveBy, fails]
    rw [failed]
    exact ⟨rfl, rfl⟩

/-- A configuration whose texts need quotes of every kind, with the greatest limit. -/
theorem save_ofFile_quotes :
    let c : ConsoleConfig :=
      ⟨⟨"a \"b\" \\ 'c'\r\n\t\x00", some maxMemoryLimit⟩, ⟨"", some "'''\"\"\"\n"⟩, .trace⟩
    (∀ n ∈ c.engine.memoryLimit?, n ≤ maxMemoryLimit) ∧
    ∃ t', c.save .empty [] [[97]] = .ok t' ∧ ofFile .toml t' [] [[97]] = .ok c := by
  intro c
  have fits : ∀ n ∈ c.engine.memoryLimit?, n ≤ maxMemoryLimit := by
    intro n given
    obtain rfl := Option.some.inj given
    exact Nat.le_refl _
  -- In an empty tree the place of a file is beside its root.
  have place : FileTree.empty.writePlace [] [[97]] = .ok ([], [97]) := by
    rw [FileTree.writePlace, if_neg (by decide), if_neg (by decide), FileTree.placeOf]
    have ends : FileTree.lastName? [[97]] = some ([], [97]) := rfl
    rw [ends]
    simp only []
    split
    · rename_i fails
      rw [FileTree.resolve_nil] at fails
      cases fails
    · rename_i leads
      rw [FileTree.resolve_nil] at leads
      cases leads
      rfl
  have free : ∃ content t', FileTree.empty.writeFile [] [[97]] content = .ok t' := by
    refine ⟨.empty, FileTree.empty.put [] [97] (.file .empty), ?_⟩
    rw [FileTree.writeFile, place]
  obtain ⟨reload, saves, -⟩ := save_ofFile c fits .empty [] [[97]]
  obtain ⟨t', saved⟩ := saves free
  exact ⟨fits, t', saved, reload t' saved⟩

end VaultConsole.ConsoleConfig
