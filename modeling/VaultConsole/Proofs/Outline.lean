import VaultConsole.Config.Reading

/-!
# Configurations of which some fields are given

An outline is what a configuration file shows: sections, each with some of its fields, in any order. Its
configuration is the standard one in which the fields that are given are put (`Outline.config`). A setting that
shows an outline is read as this configuration, whatever the format is, unless it shows the section on what is
logged without the level (`ofSetting?_setting`).
-/

namespace VaultConsole.ConsoleConfig

/-- The sections of a configuration file. -/
inductive Section where
  | engine | vault | logging
  deriving DecidableEq, Repr

/-- The name of a section. -/
def Section.name : Section → String
  | .engine => "engine"
  | .vault => "vault"
  | .logging => "logging"

theorem Section.name_injective : Function.Injective Section.name := by
  intro k k' same
  cases k with
  | _ => cases k' with
    | _ => first | rfl | exact absurd same (by decide)

/-- A value of a field: a text, or a number of bytes that a configuration can name. -/
inductive Scalar where
  | text (s : String)
  | number (n : Nat) (fits : n ≤ maxMemoryLimit)

/-- The setting that a value is. -/
def Scalar.setting : Scalar → Setting
  | .text s => .text s
  | .number n _ => .natural n

/-- A field of a section, with its value. -/
inductive Field : Section → Type where
  | chunkName (s : String) : Field .engine
  | memoryLimit (n : Nat) (fits : n ≤ maxMemoryLimit) : Field .engine
  | root (s : String) : Field .vault
  | active (s : String) : Field .vault
  | level (l : Level) : Field .logging

namespace Field

variable {kind : Section}

/-- The name of a field. -/
def name : Field kind → String
  | .chunkName _ => "chunk_name"
  | .memoryLimit _ _ => "memory_limit"
  | .root _ => "root"
  | .active _ => "active"
  | .level _ => "level"

/-- The value of a field as it stands in a file. -/
def value : Field kind → Scalar
  | .chunkName s => .text s
  | .memoryLimit n fits => .number n fits
  | .root s => .text s
  | .active s => .text s
  | .level l => .text l.name

/-- A configuration with a field replaced. -/
def put (c : ConsoleConfig) : Field kind → ConsoleConfig
  | .chunkName s => { c with engine := { c.engine with chunkName := s } }
  | .memoryLimit n _ => { c with engine := { c.engine with memoryLimit? := some n } }
  | .root s => { c with vault := { c.vault with root := s } }
  | .active s => { c with vault := { c.vault with active? := some s } }
  | .level l => { c with level := l }

/-! A field replaces nothing outside its section. -/

theorem put_engine (other : kind ≠ .engine) (c : ConsoleConfig) (f : Field kind) : (put c f).engine = c.engine := by
  cases f with
  | chunkName | memoryLimit => exact absurd rfl other
  | root | active | level => rfl

theorem put_vault (other : kind ≠ .vault) (c : ConsoleConfig) (f : Field kind) : (put c f).vault = c.vault := by
  cases f with
  | root | active => exact absurd rfl other
  | chunkName | memoryLimit | level => rfl

theorem put_level (other : kind ≠ .logging) (c : ConsoleConfig) (f : Field kind) : (put c f).level = c.level := by
  cases f with
  | level => exact absurd rfl other
  | chunkName | memoryLimit | root | active => rfl

end Field

/-- A section with the fields that it shows, none of them twice. -/
structure Block where
  kind : Section
  fields : List (Field kind)
  distinct : (fields.map Field.name).Nodup

namespace Block

/-- The setting that a section is. -/
def setting (b : Block) : Setting := .table (b.fields.map fun f => (some f.name, f.value.setting))

/-- A configuration with the fields of a section replaced. -/
def put (c : ConsoleConfig) (b : Block) : ConsoleConfig := b.fields.foldl Field.put c

end Block

/-- Sections with some of their fields, none of them twice. -/
structure Outline where
  blocks : List Block
  distinct : (blocks.map (·.kind.name)).Nodup

namespace Outline

/-- The setting that shows an outline. -/
def setting (o : Outline) : Setting := .table (o.blocks.map fun b => (some b.kind.name, b.setting))

/-- The standard configuration with the fields that are given replaced. -/
def config (o : Outline) : ConsoleConfig := o.blocks.foldl Block.put standard

/-- Whether the section on what is logged is shown without a field. -/
def lacksLevel (o : Outline) : Bool := o.blocks.any fun b => b.kind == .logging && b.fields.isEmpty

end Outline

/-! ## Fields of a table -/

section

variable {ι : Type} {name : ι → String} {value : ι → Setting}

/-- No more than one entry has a name. -/
theorem filter_entries {xs : List ι} (distinct : (xs.map name).Nodup) (key : String) :
    (xs.map fun x => (some (name x), value x)).filter (·.1 == some key) =
      ((xs.find? (name · == key)).map fun x => (some (name x), value x)).toList := by
  induction xs with
  | nil => rfl
  | cons x xs ih =>
    rw [List.map_cons, List.nodup_cons] at distinct
    obtain ⟨fresh, distinct⟩ := distinct
    rw [List.map_cons]
    by_cases found : name x = key
    · have unfound : xs.find? (name · == key) = none := by
        rw [List.find?_eq_none]
        intro y member same
        exact fresh (found ▸ eq_of_beq same ▸ List.mem_map_of_mem member)
      rw [List.filter_cons_of_pos (by simp [found]), ih distinct, List.find?_cons_of_pos (by simp [found]), unfound]
      rfl
    · rw [List.filter_cons_of_neg (by simp [found]), ih distinct, List.find?_cons_of_neg (by simp [found])]

/-- What has a name is found by it. -/
theorem find?_name {xs : List ι} (distinct : (xs.map name).Nodup) {x : ι} (member : x ∈ xs) :
    xs.find? (name · == name x) = some x := by
  induction xs with
  | nil => exact absurd member List.not_mem_nil
  | cons y ys ih =>
    rw [List.map_cons, List.nodup_cons] at distinct
    obtain rfl | later := List.mem_cons.1 member
    · rw [List.find?_cons_of_pos (by simp)]
    · have differs : name y ≠ name x := fun same => distinct.1 (same ▸ List.mem_map_of_mem later)
      rw [List.find?_cons_of_neg (by simp [differs]), ih distinct.2 later]

/-- The fields of a table are found by their names. -/
theorem fields?_table (d : Setting.Dialect) (names : List String) {xs : List ι} (distinct : (xs.map name).Nodup) :
    Setting.fields? d names (.table (xs.map fun x => (some (name x), value x))) =
      some (names.map fun key => (xs.find? (name · == key)).map value) := by
  have named : (xs.map fun x => (some (name x), value x)).any (·.1.isNone) = false := by
    simp
  rw [Setting.fields?, if_neg (by simp [named])]
  induction names with
  | nil => rfl
  | cons key names ih =>
    rw [List.mapM_cons, ih, filter_entries distinct]
    cases found : xs.find? (name · == key) with
    | none => simp [found]
    | some x => simp [found]

variable {α : Type} {put : ConsoleConfig → ι → ConsoleConfig} {get : ConsoleConfig → α}

/-- What nothing replaces stays. -/
theorem get_foldl {xs : List ι} (keeps : ∀ x ∈ xs, ∀ c, get (put c x) = get c) (c : ConsoleConfig) :
    get (xs.foldl put c) = get c := by
  induction xs generalizing c with
  | nil => rfl
  | cons x xs ih =>
    rw [List.foldl_cons, ih fun y hy => keeps y (List.mem_cons_of_mem x hy), keeps x List.mem_cons_self]

/-- A part of a configuration is read from what is given for it, or it is the standard one. -/
theorem orStandard_find (get : ConsoleConfig → α) {standard : α} {read : Setting → Option α} {key : String}
    {xs : List ι} (distinct : (xs.map name).Nodup)
    (gives : ∀ x ∈ xs, name x = key → ∀ c, get c = standard → read (value x) = some (get (put c x)))
    (keeps : ∀ x ∈ xs, name x ≠ key → ∀ c, get (put c x) = get c) {c : ConsoleConfig} (start : get c = standard) :
    orStandard standard read ((xs.find? (name · == key)).map value) = some (get (xs.foldl put c)) := by
  induction xs generalizing c with
  | nil => rw [List.foldl_nil, start]; rfl
  | cons x xs ih =>
    rw [List.map_cons, List.nodup_cons] at distinct
    obtain ⟨fresh, distinct⟩ := distinct
    rw [List.foldl_cons]
    by_cases found : name x = key
    · -- No name comes twice, so what follows replaces other parts.
      have later : ∀ y ∈ xs, ∀ c, get (put c y) = get c := by
        intro y member
        refine keeps y (List.mem_cons_of_mem x member) ?_
        rintro rfl
        exact fresh (found ▸ List.mem_map_of_mem member)
      rw [List.find?_cons_of_pos (by simp [found]), get_foldl later]
      exact gives x List.mem_cons_self found c start
    · rw [List.find?_cons_of_neg (by simp [found])]
      exact ih distinct (fun y hy => gives y (List.mem_cons_of_mem x hy))
        (fun y hy => keeps y (List.mem_cons_of_mem x hy)) ((keeps x List.mem_cons_self found c).trans start)

end

/-! ## Sections -/

/-- The section of the engine is read as the configuration of the engine. -/
theorem engineOf?_setting (d : Setting.Dialect) {fields : List (Field .engine)}
    (distinct : (fields.map Field.name).Nodup) {c : ConsoleConfig} (start : c.engine = .standard) :
    engineOf? d (.table (fields.map fun f => (some f.name, f.value.setting))) =
      some (fields.foldl Field.put c).engine := by
  -- Each field is what the last setting under its name gives, and the others leave it alone.
  have chunkName : orStandard EngineConfig.standard.chunkName Setting.text?
      ((fields.find? (·.name == "chunk_name")).map (·.value.setting)) =
        some (fields.foldl Field.put c).engine.chunkName := by
    refine orStandard_find (·.engine.chunkName) distinct ?_ ?_ (congrArg _ start)
    · rintro (s | ⟨n, fits⟩) - named c -
      · rfl
      · exact absurd named (show "memory_limit" ≠ "chunk_name" by decide)
    · rintro (s | ⟨n, fits⟩) - other c
      · exact absurd rfl other
      · rfl
  have memoryLimit : orStandard EngineConfig.standard.memoryLimit? limit?
      ((fields.find? (·.name == "memory_limit")).map (·.value.setting)) =
        some (fields.foldl Field.put c).engine.memoryLimit? := by
    refine orStandard_find (·.engine.memoryLimit?) distinct ?_ ?_ (congrArg _ start)
    · rintro (s | ⟨n, fits⟩) - named c -
      · exact absurd named (show "chunk_name" ≠ "memory_limit" by decide)
      · exact if_pos fits
    · rintro (s | ⟨n, fits⟩) - other c
      · rfl
      · exact absurd rfl other
  simp [engineOf?, fields?_table d _ distinct, chunkName, memoryLimit]

/-- The section of the vault is read as the configuration of the vault. -/
theorem vaultOf?_setting (d : Setting.Dialect) {fields : List (Field .vault)}
    (distinct : (fields.map Field.name).Nodup) {c : ConsoleConfig} (start : c.vault = .standard) :
    vaultOf? d (.table (fields.map fun f => (some f.name, f.value.setting))) =
      some (fields.foldl Field.put c).vault := by
  have root : orStandard VaultConfig.standard.root Setting.text?
      ((fields.find? (·.name == "root")).map (·.value.setting)) = some (fields.foldl Field.put c).vault.root := by
    refine orStandard_find (·.vault.root) distinct ?_ ?_ (congrArg _ start)
    · rintro (s | s) - named c -
      · rfl
      · exact absurd named (show "active" ≠ "root" by decide)
    · rintro (s | s) - other c
      · exact absurd rfl other
      · rfl
  have active : orStandard VaultConfig.standard.active? optionalText?
      ((fields.find? (·.name == "active")).map (·.value.setting)) =
        some (fields.foldl Field.put c).vault.active? := by
    refine orStandard_find (·.vault.active?) distinct ?_ ?_ (congrArg _ start)
    · rintro (s | s) - named c -
      · exact absurd named (show "root" ≠ "active" by decide)
      · rfl
    · rintro (s | s) - other c
      · rfl
      · exact absurd rfl other
  simp [vaultOf?, fields?_table d _ distinct, root, active]

/-- The section on what is logged is read as the level, if it gives one. -/
theorem levelOf?_setting (d : Setting.Dialect) {fields : List (Field .logging)}
    (distinct : (fields.map Field.name).Nodup) (c : ConsoleConfig) :
    levelOf? d (.table (fields.map fun f => (some f.name, f.value.setting))) =
      if fields.isEmpty then none else some (fields.foldl Field.put c).level := by
  match fields, distinct with
  | [], _ => rfl
  | [.level l], _ =>
    cases l with
    | _ => rfl
  -- There is one field only, which may not come twice.
  | .level _ :: .level _ :: _, twice => simp [Field.name] at twice

/-! ## Outlines -/

namespace Outline

variable (d : Setting.Dialect) (o : Outline)

theorem engine_config : orStandard standard.engine (engineOf? d)
    ((o.blocks.find? (·.kind.name == "engine")).map Block.setting) = some o.config.engine := by
  refine orStandard_find (·.engine) o.distinct ?_ ?_ rfl
  · rintro ⟨kind, fields, distinct⟩ - named c start
    obtain rfl : kind = .engine := Section.name_injective named
    exact engineOf?_setting d distinct start
  · intro b _ other c
    have differs : b.kind ≠ .engine := fun same => other (congrArg Section.name same)
    exact get_foldl (fun f _ c => f.put_engine differs c) c

theorem vault_config : orStandard standard.vault (vaultOf? d)
    ((o.blocks.find? (·.kind.name == "vault")).map Block.setting) = some o.config.vault := by
  refine orStandard_find (·.vault) o.distinct ?_ ?_ rfl
  · rintro ⟨kind, fields, distinct⟩ - named c start
    obtain rfl : kind = .vault := Section.name_injective named
    exact vaultOf?_setting d distinct start
  · intro b _ other c
    have differs : b.kind ≠ .vault := fun same => other (congrArg Section.name same)
    exact get_foldl (fun f _ c => f.put_vault differs c) c

variable {o}

/-- The level is read, if the section on what is logged has it, or is not there. -/
theorem level_config (gives : o.lacksLevel = false) : orStandard standard.level (levelOf? d)
    ((o.blocks.find? (·.kind.name == "logging")).map Block.setting) = some o.config.level := by
  refine orStandard_find (·.level) o.distinct ?_ ?_ rfl
  · rintro ⟨kind, fields, distinct⟩ member named c -
    obtain rfl : kind = .logging := Section.name_injective named
    have filled : ¬fields.isEmpty = true := by
      intro empty
      have lacks := List.any_eq_false.1 gives _ member
      simp [empty] at lacks
    exact (levelOf?_setting d distinct c).trans (if_neg filled)
  · intro b _ other c
    have differs : b.kind ≠ .logging := fun same => other (congrArg Section.name same)
    exact get_foldl (fun f _ c => f.put_level differs c) c

/-- A section on what is logged without the level is not read. -/
theorem level_unread (lacks : o.lacksLevel = true) : orStandard standard.level (levelOf? d)
    ((o.blocks.find? (·.kind.name == "logging")).map Block.setting) = none := by
  obtain ⟨⟨kind, fields, distinct⟩, member, test⟩ := List.any_eq_true.1 lacks
  simp only [Bool.and_eq_true, beq_iff_eq, List.isEmpty_iff] at test
  obtain ⟨rfl, rfl⟩ := test
  have found : o.blocks.find? (·.kind.name == "logging") = some ⟨.logging, [], distinct⟩ :=
    find?_name o.distinct member
  rw [found]
  exact levelOf?_setting d distinct standard

end Outline

/-- **A setting that shows an outline is read as its configuration**, in each format, unless the section on what
is logged is there without the level. -/
theorem ofSetting?_setting (d : Setting.Dialect) (o : Outline) :
    ofSetting? d o.setting = if o.lacksLevel then none else some o.config := by
  have engine := o.engine_config d
  have vault := o.vault_config d
  rw [Outline.setting, ofSetting?, fields?_table d _ o.distinct]
  cases lacks : o.lacksLevel with
  | true =>
    have level := Outline.level_unread d lacks
    simp [engine, vault, level]
  | false =>
    have level := Outline.level_config d lacks
    simp [engine, vault, level]

end VaultConsole.ConsoleConfig
