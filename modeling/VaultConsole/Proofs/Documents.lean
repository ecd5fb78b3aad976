import VaultConsole.Proofs.Json.Written
import VaultConsole.Proofs.Outline
import VaultConsole.Proofs.Toml.Sections

/-!
# Configuration files as documents

An outline is shown by documents in either format: by every text that is read as its setting (`Outline.Shown`). In
TOML these are, among others, rows: headers and fields in the order of the outline, with blanks, comments and empty
lines anywhere (`Outline.shown_rows`). In JSON they are objects of objects in any layout (`Outline.shown_json`). What
shows an outline is read as its configuration (`ofText_outline`).
-/

namespace VaultConsole

namespace ConsoleConfig

open Toml

/-! ## Values -/

namespace Scalar

/-- A value in TOML. -/
def toml : Scalar → Toml
  | .text s => .string s
  | .number n _ => .integer n

/-- A value as it is written in TOML. -/
def written : Scalar → List Char
  | .text s => writeText s
  | .number n _ => Nat.toDigits 10 n

/-- A value in JSON. -/
def json : Scalar → Json
  | .text s => .string s
  | .number n _ => .number (String.ofList (Nat.toDigits 10 n))

theorem ofToml_toml (v : Scalar) : Setting.ofToml v.toml = v.setting := by
  cases v with
  | text s => rfl
  | number n fits => simp [toml, setting, Setting.ofToml]

theorem isValue_written (v : Scalar) : IsValue v.written v.toml := by
  cases v with
  | text s => exact isValue_writeText s
  | number n fits =>
    refine isValue_toDigits ?_
    unfold maxMemoryLimit at fits
    unfold maxInteger
    omega

theorem isValue_write (v : Scalar) (l : Json.Layout) (depth : Nat) :
    Setting.Json.IsValue (Json.write l depth v.json) v.setting := by
  cases v with
  | text s =>
    rw [json, Json.write]
    exact Setting.Json.isValue_quote s
  | number n fits =>
    rw [json, Json.write, String.toList_ofList]
    exact Setting.Json.isValue_toDigits n

end Scalar

theorem Section.isBare_name (kind : Section) : IsBare kind.name := by
  cases kind with
  | _ => exact isBare_of_decide rfl

theorem Field.isBare_name {kind : Section} (f : Field kind) : IsBare f.name := by
  have bare : ∀ name ∈ ["chunk_name", "memory_limit", "root", "active", "level"],
      (!name.toList.isEmpty && name.toList.all isKeyChar) = true := by
    decide
  cases f with
  | _ => exact isBare_of_decide (bare _ (by simp [Field.name]))

/-! ## Rows -/

/-- What a row of a TOML document shows. -/
inductive Item where
  | header (kind : Section)
  | field {kind : Section} (f : Field kind)

namespace Item

/-- The statement of a row. -/
def statement : Item → Statement
  | .header kind => .table [kind.name]
  | .field f => .assignment [f.name] (.scalar f.value.toml)

/-- A row from its first character on, with blanks before and after the name in brackets, or the equals sign. -/
def chars (before after : Blanks) : Item → List Char
  | .header kind => '[' :: (before.chars ++ (kind.name.toList ++ (after.chars ++ [']'])))
  | .field f => f.name.toList ++ (before.chars ++ '=' :: (after.chars ++ f.value.written))

end Item

/-- A row of a TOML document: a header, a field, or neither. -/
structure Row where
  indent : Blanks
  item? : Option Item
  before : Blanks
  after : Blanks
  ending : LineEnd

namespace Row

/-- A row as it is written. -/
def chars (r : Row) : List Char :=
  r.indent.chars ++ ((r.item?.elim [] (·.chars r.before r.after)) ++ r.ending.chars)

/-- A row is a line. -/
theorem isLine_chars (r : Row) : IsLine r.chars (r.item?.map Item.statement) := by
  obtain ⟨indent, item?, before, after, ending⟩ := r
  refine IsLine.indent ?_ indent
  match item? with
  | none => exact isLine_end ending
  | some (.header kind) =>
    have line := isLine_table kind.isBare_name before after ending
    simpa [Item.chars, Item.statement] using line
  | some (.field f) =>
    have line := isLine_assignment f.isBare_name f.value.isValue_written before after ending
    simpa [Item.chars, Item.statement] using line

end Row

/-! ## Documents -/

theorem ofTomlEntries_map {ι : Type} (xs : List ι) (name : ι → String) (value : ι → Toml) :
    Setting.ofTomlEntries (xs.map fun x => (name x, value x)) =
      xs.map fun x => (some (name x), Setting.ofToml (value x)) := by
  induction xs with
  | nil => rfl
  | cons x xs ih => rw [List.map_cons, Setting.ofTomlEntries, ih, List.map_cons]

namespace Block

/-- The rows of a section that show something. -/
def items (b : Block) : List Item := .header b.kind :: b.fields.map .field

/-- A section in TOML. -/
def toml (b : Block) : Table := ⟨b.kind.name, b.fields.map fun f => (f.name, f.value.toml)⟩

/-- A section in JSON. -/
def json (b : Block) : Json := .object (b.fields.map fun f => (f.name, f.value.json))

theorem ofToml_fields (b : Block) : Setting.ofToml (.table b.toml.fields) = b.setting := by
  rw [Setting.ofToml, toml, ofTomlEntries_map, setting]
  simp only [Scalar.ofToml_toml]

theorem statements_toml (b : Block) : b.toml.statements = b.items.map Item.statement := by
  simp [toml, items, Table.statements, Item.statement, Function.comp_def]

end Block

namespace Outline

/-- The rows of an outline that show something. -/
def items (o : Outline) : List Item := o.blocks.flatMap Block.items

/-- An outline in JSON. -/
def json (o : Outline) : Json := .object (o.blocks.map fun b => (b.kind.name, b.json))

/-- A text shows an outline: it is read as the setting that does. -/
def Shown (o : Outline) : Format → String → Prop
  | .toml, text => Setting.readToml? text = some o.setting
  | .json, text => Setting.readJson? text = some o.setting

/-- Rows in the order of an outline show it. -/
theorem shown_rows (o : Outline) (rows : List Row) (same : rows.filterMap Row.item? = o.items) :
    o.Shown .toml (String.ofList (rows.flatMap Row.chars)) := by
  have lines : ∀ l ∈ rows.map fun r => (r.chars, r.item?.map Item.statement), IsLine l.1 l.2 := by
    intro l member
    obtain ⟨r, -, rfl⟩ := List.mem_map.1 member
    exact r.isLine_chars
  -- Rows that show nothing give no statement.
  have statements : (rows.map fun r => (r.chars, r.item?.map Item.statement)).filterMap Prod.snd =
      (o.blocks.map Block.toml).flatMap Table.statements := by
    calc (rows.map fun r => (r.chars, r.item?.map Item.statement)).filterMap Prod.snd
        = (rows.filterMap Row.item?).map Item.statement := by
          rw [List.filterMap_map, List.map_filterMap]
          rfl
      _ = o.blocks.flatMap fun b => b.items.map Item.statement := by
          rw [same, items, List.map_flatMap]
      _ = (o.blocks.map Block.toml).flatMap Table.statements := by
          simp only [List.flatMap_map, Block.statements_toml]
  have names : ((o.blocks.map Block.toml).map Table.name).Nodup := by
    simpa [Block.toml, Function.comp_def] using o.distinct
  have fields : ∀ t ∈ o.blocks.map Block.toml, (t.fields.map Prod.fst).Nodup := by
    intro t member
    obtain ⟨b, -, rfl⟩ := List.mem_map.1 member
    simpa [Block.toml, Function.comp_def] using b.distinct
  have read := read?_sections lines statements names fields
  have written : ((rows.map fun r => (r.chars, r.item?.map Item.statement)).map Prod.fst).flatten =
      rows.flatMap Row.chars := by
    rw [List.map_map, List.flatMap]
    rfl
  rw [written] at read
  have entries : Setting.ofTomlEntries ((o.blocks.map Block.toml).map Table.entry) =
      o.blocks.map fun b => (some b.kind.name, b.setting) := by
    rw [List.map_map]
    refine (ofTomlEntries_map o.blocks (·.kind.name) fun b => .table b.toml.fields).trans ?_
    simp only [Block.ofToml_fields]
  rw [Shown, Setting.readToml?, read, Option.map_some, entries, setting]

/-- An object of objects, in any layout with blanks around it, shows an outline. -/
theorem shown_json (o : Outline) {l : Json.Layout} (blank : Setting.Json.IsBlank l) (before after : List Char)
    (spaced : ∀ c ∈ before, Setting.Json.isSpace c = true) (spaced' : ∀ c ∈ after, Setting.Json.isSpace c = true) :
    o.Shown .json (String.ofList (before ++ (Json.write l 0 o.json ++ after))) := by
  have blocks : ∀ b ∈ o.blocks, Setting.Json.IsValue (Json.write l 1 b.json) b.setting := fun b _ =>
    Setting.Json.isValue_object blank b.fields fun f _ => f.value.isValue_write l 2
  exact Setting.readJson?_of_isValue (Setting.Json.isValue_object blank o.blocks blocks) spaced spaced'

/-- What a document is read as that shows an outline. -/
theorem ofText_of_shown {o : Outline} {format : Format} {text : String} (shown : o.Shown format text) :
    ofText format text = if o.lacksLevel then .error .malformed else .ok o.config := by
  have read : ∀ d, ofSetting? d o.setting = if o.lacksLevel then none else some o.config := fun d =>
    ofSetting?_setting d o
  cases format with
  | toml =>
    have shown : Setting.readToml? text = some o.setting := shown
    simp only [ofText, shown, Option.bind_some, read]
    by_cases lacks : o.lacksLevel = true
    · rw [if_pos lacks, if_pos lacks]
    · rw [if_neg lacks, if_neg lacks]
  | json =>
    have shown : Setting.readJson? text = some o.setting := shown
    simp only [ofText, shown, Option.bind_some, read]
    by_cases lacks : o.lacksLevel = true
    · rw [if_pos lacks, if_pos lacks]
    · rw [if_neg lacks, if_neg lacks]

end Outline

/-- **What a document gives replaces what is standard, and nothing else.** Whatever its format and its layout are,
a document that shows an outline is read as the standard configuration with the fields that are given replaced,
unless it shows the section on what is logged without the level: then it is no configuration. An outline is shown
by rows in its order, and by an object of objects, with blanks, comments and ends of lines wherever they may
stand. -/
theorem ofText_outline (o : Outline) :
    (∀ format text, o.Shown format text →
      ofText format text = if o.lacksLevel then .error .malformed else .ok o.config) ∧
    (∀ rows : List Row, rows.filterMap Row.item? = o.items →
      o.Shown .toml (String.ofList (rows.flatMap Row.chars))) ∧
    ∀ (l : Json.Layout) (before after : List Char), Setting.Json.IsBlank l →
      (∀ c ∈ before, Setting.Json.isSpace c = true) → (∀ c ∈ after, Setting.Json.isSpace c = true) →
      o.Shown .json (String.ofList (before ++ (Json.write l 0 o.json ++ after))) := by
  refine ⟨fun format text shown => ?_, fun rows same => ?_, fun l before after blank spaced spaced' => ?_⟩
  · exact Outline.ofText_of_shown shown
  · exact o.shown_rows rows same
  · exact o.shown_json blank before after spaced spaced'

/-- A root is given, and a section for the engine is shown without a field: in rows with blanks and a comment, and
in an indented object. -/
theorem ofText_outline_root :
    ofText .toml "  [vault]\n  root = \"notes\" # here\n\n[engine]\r\n" =
        .ok { ConsoleConfig.standard with vault := ⟨"notes", none⟩ } ∧
      ofText .json "\x7b\n  \"vault\": \x7b\n    \"root\": \"notes\"\n  \x7d,\n  \"engine\": \x7b\x7d\n\x7d\n" =
        .ok { ConsoleConfig.standard with vault := ⟨"notes", none⟩ } := by
  let o : Outline := ⟨[⟨.vault, [.root "notes"], by simp⟩, ⟨.engine, [], by simp⟩], by decide⟩
  obtain ⟨outcome, rows, objects⟩ := ofText_outline o
  constructor
  · let two : Blanks := ⟨[' ', ' '], by simp [isSpace]⟩
    let remark : LineEnd := ⟨.one, some [' ', 'h', 'e', 'r', 'e'], false, by simp [isPlain]⟩
    have shown := rows [
      ⟨two, some (.header .vault), .none, .none, .bare⟩,
      ⟨two, some (.field (.root "notes")), .one, .one, remark⟩,
      ⟨.none, none, .none, .none, .bare⟩,
      ⟨.none, some (.header .engine), .none, .none, ⟨.none, none, true, by simp⟩⟩] rfl
    exact outcome .toml _ shown
  · have blank : ∀ c ∈ ['\n'], Setting.Json.isSpace c = true := by simp [Setting.Json.isSpace]
    have shown := objects .indented [] ['\n'] Setting.Json.isBlank_indented (by simp) blank
    exact outcome .json _ shown

/-- A section on what is logged that is empty gives no field, yet the document is no configuration in either
format. -/
theorem ofText_emptyLogging :
    let o : Outline := ⟨[⟨.logging, [], by simp⟩], by simp⟩
    o.config = standard ∧ (o.Shown .toml "[logging]\n" ∧ ofText .toml "[logging]\n" ≠ .ok o.config) ∧
      o.Shown .json "\x7b\"logging\":\x7b\x7d\x7d" ∧ ofText .json "\x7b\"logging\":\x7b\x7d\x7d" ≠ .ok o.config := by
  intro o
  have toml : o.Shown .toml "[logging]\n" := by
    let row : Row := ⟨.none, some (.header .logging), .none, .none, .bare⟩
    have shown := o.shown_rows [row] rfl
    have written : [row].flatMap Row.chars = "[logging]\n".toList := by
      decide
    rw [written, String.ofList_toList] at shown
    exact shown
  have json : o.Shown .json "\x7b\"logging\":\x7b\x7d\x7d" := by
    have shown := o.shown_json Setting.Json.isBlank_compact [] [] (by simp) (by simp)
    have written : [] ++ (Json.write .compact 0 o.json ++ []) = "\x7b\"logging\":\x7b\x7d\x7d".toList := by
      decide
    rw [written, String.ofList_toList] at shown
    exact shown
  have fails : ∀ format text, o.Shown format text → ofText format text ≠ .ok o.config := by
    intro format text shown succeeds
    rw [Outline.ofText_of_shown shown, if_pos (by decide)] at succeeds
    cases succeeds
  exact ⟨rfl, ⟨toml, fails _ _ toml⟩, json, fails _ _ json⟩

end ConsoleConfig

end VaultConsole
