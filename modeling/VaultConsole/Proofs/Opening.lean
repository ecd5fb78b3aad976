import VaultConsole.Console.Run
import VaultConsole.Proofs.EngineLifecycle
import VaultConsole.Proofs.Utf8
import VaultConsole.Proofs.Variables

/-!
# What a console is opened on

The configuration of a console comes from two files, the variables of the environment and the arguments. The
files give a configuration as a whole (`Base`), and each field of it may be named anew by a source of its own
(`Settles`). A console goes on to make its engine just if the configuration at the end can be used (`Usable`);
else it ends at once. `ofInput_config` says all of this for every run.
-/

namespace VaultConsole

namespace ConsoleConfig

/-- A path leads to a file that holds a configuration: the file is a text, and the text a configuration. -/
def Held (t : FileTree) (here : Location) (segments : List FileName) (c : ConsoleConfig) : Prop :=
  ∃ text : String, t.entryAt here segments = .ok (.file text.toUTF8) ∧ ofText .toml text = .ok c

/-- What is read from a file is the configuration that it holds. -/
theorem ofFile_eq_ok {t : FileTree} {here : Location} {segments : List FileName} {c : ConsoleConfig} :
    ofFile .toml t here segments = .ok c ↔ Held t here segments c := by
  -- A text is read just from the bytes that encode it.
  have readable : ∀ text, t.readText here segments = .ok text ↔
      t.entryAt here segments = .ok (.file text.toUTF8) := by
    intro text
    rw [FileTree.readText]
    cases found : t.entryAt here segments with
    | error fault => simp
    | ok e =>
      cases e with
      | file content =>
        have decoded := @Text.Utf8.decode_eq_ok content text
        simp only [Except.ok.injEq, Entry.file.injEq]
        rw [@eq_comm _ content, ← decoded]
        cases Text.Utf8.decode content with
        | ok s => simp
        | error fault => simp
      | directory entries => simp
      | link target => simp
  rw [ofFile]
  constructor
  · intro read
    cases text : t.readText here segments with
    | error fault =>
      rw [text] at read
      cases read
    | ok s =>
      rw [text] at read
      exact ⟨s, (readable s).1 text, read⟩
  · rintro ⟨s, found, read⟩
    rw [(readable s).2 found]
    exact read

end ConsoleConfig

namespace Surroundings

open ConsoleConfig

variable (s : Surroundings)

/-- The file in the working directory holds a configuration. -/
def InWork (c : ConsoleConfig) : Prop := Held s.files s.directory (segmentsOfNames [fileName]) c

/-- The file of the user holds a configuration. -/
def OfUser (c : ConsoleConfig) : Prop :=
  ∃ directory, s.userDirectory? = some directory ∧ Held s.files directory (segmentsOfNames userPath) c

/-- The configuration that the files give, as a whole. -/
inductive Base : ConsoleConfig → Prop where
  | work {c : ConsoleConfig} (held : s.InWork c) : Base c
  | user {c : ConsoleConfig} (unheld : ∀ other, ¬ s.InWork other) (held : s.OfUser c) : Base c
  | standard (unheld : ∀ other, ¬ s.InWork other) (unheld' : ∀ other, ¬ s.OfUser other) : Base .standard

/-- A value is the one that a source names, or, if it names none, the one to fall back on. -/
def Chosen {α : Type} (names : α → Prop) (fallback v : α) : Prop := names v ∨ (∀ w, ¬ names w) ∧ v = fallback

/-- A configuration has in each field what is chosen for it over a base. -/
structure Settles (base c : ConsoleConfig) : Prop where
  chunkName : Chosen (fun name => s.environment.chunkName? = some name ∧ name ≠ "")
    base.engine.chunkName c.engine.chunkName
  memoryLimit : Chosen
    (fun limit? => ∃ text n, s.environment.memoryLimit? = some text ∧ Environment.NamesLimit text n ∧ limit? = some n)
    base.engine.memoryLimit? c.engine.memoryLimit?
  level : Chosen (fun level => ∃ text, s.environment.logLevel? = some text ∧ Environment.NamesLevel text level)
    base.level c.level
  active : c.vault.active? = base.vault.active?
  root : ∃ root, Chosen (fun path => s.environment.vaultRoot? = some path) base.vault.root root ∧
    Chosen (fun path => s.arguments.head? = some path) root c.vault.root

/-- A configuration can be used: the chunk name has a character that is not blank, the memory is not limited
below the minimum, and the root has a path. -/
structure Usable (c : ConsoleConfig) : Prop where
  chunkName : ∃ ch ∈ c.engine.chunkName.toList, Text.isBlank ch = false
  memoryLimit : ∀ n, c.engine.memoryLimit? = some n → 65536 ≤ n
  root : c.vault.root ≠ ""

/-! ## Files -/

/-- The configuration that is loaded is the first one that is read, or else the standard one. -/
theorem load_eq (t : FileTree) (here : Location) (user? : Option Location) :
    load t here user? =
      ((ofFile .toml t here (segmentsOfNames [fileName])).toOption.or
        (user?.bind fun user => (ofFile .toml t user (segmentsOfNames userPath)).toOption)).getD .standard := by
  unfold load
  cases ofFile .toml t here (segmentsOfNames [fileName]) with
  | ok c => rfl
  | error fault =>
    cases user? with
    | none => rfl
    | some user =>
      simp only [Option.bind_some]
      cases ofFile .toml t user (segmentsOfNames userPath) with
      | ok c => rfl
      | error fault' => rfl

/-- The files give the configuration that is loaded, and no other one. -/
theorem base_iff (c : ConsoleConfig) : s.Base c ↔ c = load s.files s.directory s.userDirectory? := by
  have read : ∀ t here segments (c : ConsoleConfig),
      (ofFile .toml t here segments).toOption = some c ↔ Held t here segments c := by
    intro t here segments c
    rw [← ofFile_eq_ok]
    cases ofFile .toml t here segments with
    | ok c => simp [Except.toOption]
    | error fault => simp [Except.toOption]
  have inWork : ∀ c, _ ↔ s.InWork c := read s.files s.directory (segmentsOfNames [fileName])
  have ofUser : ∀ c, (s.userDirectory?.bind fun user =>
      (ofFile .toml s.files user (segmentsOfNames userPath)).toOption) = some c ↔ s.OfUser c := by
    intro c
    simp only [Option.bind_eq_some_iff, read, OfUser]
  -- That no configuration is held is that none is read, in either place.
  have unread : ∀ {given? : Option ConsoleConfig} {P : ConsoleConfig → Prop}, (∀ c, given? = some c ↔ P c) →
      ((∀ c, ¬ P c) ↔ given? = none) := by
    intro given? P same
    simp only [← same, Option.eq_none_iff_forall_ne_some, ne_eq]
  rw [load_eq]
  constructor
  · rintro (held | ⟨unheld, held⟩ | ⟨unheld, unheld'⟩)
    · rw [(inWork c).2 held]
      rfl
    · rw [(unread inWork).1 unheld, (ofUser c).2 held]
      rfl
    · rw [(unread inWork).1 unheld, (unread ofUser).1 unheld']
      rfl
  · rintro rfl
    cases first : (ofFile .toml s.files s.directory (segmentsOfNames [fileName])).toOption with
    | some c => exact .work ((inWork c).1 first)
    | none =>
      have unheld := (unread inWork).2 first
      cases second : s.userDirectory?.bind fun user =>
          (ofFile .toml s.files user (segmentsOfNames userPath)).toOption with
      | some c => exact .user unheld ((ofUser c).1 second)
      | none => exact .standard unheld ((unread ofUser).2 second)

/-! ## Fields -/

/-- What is chosen is what is taken from an option, or else the value to fall back on. -/
theorem chosen_iff {α : Type} {names : α → Prop} {given? : Option α} (same : ∀ v, given? = some v ↔ names v)
    {fallback v : α} : Chosen names fallback v ↔ v = given?.getD fallback := by
  obtain rfl : (given? = some ·) = names := funext fun w => propext (same w)
  rw [Chosen]
  cases given? with
  | none => simp
  | some w => simp [eq_comm]

section

variable (c : ConsoleConfig) (e : Environment)

/-- The chunk name that the variables choose. -/
theorem chosen_chunkName {name : String} : Chosen (fun name => e.chunkName? = some name ∧ name ≠ "")
    c.engine.chunkName name ↔ name = (c.withEnvironment e).engine.chunkName := by
  refine chosen_iff fun name => ?_
  rw [Option.filter_eq_some_iff]
  simp

/-- The memory limit that the variables choose. -/
theorem chosen_memoryLimit {limit? : Option Nat} : Chosen
    (fun limit? => ∃ text n, e.memoryLimit? = some text ∧ Environment.NamesLimit text n ∧ limit? = some n)
    c.engine.memoryLimit? limit? ↔ limit? = (c.withEnvironment e).engine.memoryLimit? := by
  -- A limit that is named is put in place of the other one, which may be no limit at all.
  have given : ∀ limit? base? : Option Nat, limit?.or base? = (limit?.map some).getD base? := by
    intro limit? base?
    cases limit? with
    | none => rfl
    | some n => rfl
  rw [ConsoleConfig.withEnvironment, given]
  refine chosen_iff fun limit? => ?_
  simp only [Option.map_eq_some_iff, Option.bind_eq_some_iff, Environment.limitOf?_eq_some]
  constructor
  · rintro ⟨n, ⟨text, set, named⟩, rfl⟩
    exact ⟨text, n, set, named, rfl⟩
  · rintro ⟨text, n, set, named, rfl⟩
    exact ⟨n, ⟨text, set, named⟩, rfl⟩

/-- The root that the variables choose. -/
theorem chosen_root {path : String} : Chosen (fun path => e.vaultRoot? = some path) c.vault.root path ↔
    path = (c.withEnvironment e).vault.root :=
  chosen_iff fun _ => Iff.rfl

/-- The level that the variables choose. -/
theorem chosen_level {level : Level} : Chosen
    (fun level => ∃ text, e.logLevel? = some text ∧ Environment.NamesLevel text level) c.level level ↔
    level = (c.withEnvironment e).level := by
  refine chosen_iff fun level => ?_
  simp only [Option.bind_eq_some_iff, Environment.levelOf?_eq_some]

end

/-- The variables and the arguments settle each field over what the files give. -/
theorem settles : s.Settles (load s.files s.directory s.userDirectory?) s.config := by
  let base := load s.files s.directory s.userDirectory?
  let overridden := base.withEnvironment s.environment
  have vault : s.config.vault = ⟨s.arguments.head?.getD overridden.vault.root, base.vault.active?⟩ := by
    rw [config]
    cases s.arguments with
    | nil => rfl
    | cons root rest => rfl
  have others : s.config.engine = overridden.engine ∧ s.config.level = overridden.level := by
    rw [config]
    cases s.arguments with
    | nil => exact ⟨rfl, rfl⟩
    | cons root rest => exact ⟨rfl, rfl⟩
  constructor
  · exact (chosen_chunkName base s.environment).2 (by rw [others.1])
  · exact (chosen_memoryLimit base s.environment).2 (by rw [others.1])
  · exact (chosen_level base s.environment).2 others.2
  · rw [vault]
  · rw [vault]
    exact ⟨_, (chosen_root base s.environment).2 rfl, (chosen_iff fun _ => Iff.rfl).2 rfl⟩

/-! ## Validity -/

/-- A configuration of the engine is valid if its name for chunks is not blank and its limit is none or not too
small. -/
theorem validate_engine_eq_ok (c : EngineConfig) : c.validate = .ok () ↔ Text.allBlank c.chunkName = false ∧
    ∀ n, c.memoryLimit? = some n → 65536 ≤ n := by
  rw [EngineConfig.validate]
  cases Text.allBlank c.chunkName with
  | true => simp
  | false =>
    cases c.memoryLimit? with
    | none => simp
    | some n =>
      by_cases small : n < minMemoryLimit
      · have below : n < 65536 := small
        simp [small, below]
      · have above : 65536 ≤ n := Nat.le_of_not_lt small
        simp [small, above]

/-- A configuration of the vault is valid if it has a root. -/
theorem validate_vault_eq_ok (c : VaultConfig) : c.validate = .ok () ↔ c.root ≠ "" := by
  rw [VaultConfig.validate]
  cases empty : c.root.isEmpty with
  | true => simp [String.isEmpty_iff.1 empty]
  | false =>
    have solid : c.root ≠ "" := fun nothing => by simp [nothing] at empty
    simp [solid]

/-- The configurations that are valid can be used, and no others. -/
theorem validate_eq_ok (c : ConsoleConfig) : c.validate = .ok () ↔ Usable c := by
  have name : Text.allBlank c.engine.chunkName = false ↔
      ∃ ch ∈ c.engine.chunkName.toList, Text.isBlank ch = false := by
    simp [Text.allBlank]
  rw [ConsoleConfig.validate]
  constructor
  · intro valid
    split at valid
    · cases valid
    · rename_i fits
      obtain ⟨named, limited⟩ := (validate_engine_eq_ok c.engine).1 fits
      exact ⟨name.1 named, limited, (validate_vault_eq_ok c.vault).1 valid⟩
  · rintro ⟨named, limited, rooted⟩
    rw [(validate_engine_eq_ok c.engine).2 ⟨name.2 named, limited⟩]
    exact (validate_vault_eq_ok c.vault).2 rooted

end Surroundings

namespace Run

open Surroundings

/-- The run of a console that makes its first session in a given way. -/
def ofInputBy (make : Option Nat → Except ScriptError Lua.Session) (s : Surroundings) (input : List UInt8) : Run :=
  match s.validConfig with
  | .error fault => ⟨[], [], .failed fault.message⟩
  | .ok c =>
    let filter := s.filter c.level
    let opening := LogEvent.opening c.vault.root
    let outside := s.outside c.vault
    match (Engine.new c.engine).startBy make with
    | ⟨engine, events, _, .error e⟩ =>
      ofDialogue filter ⟨engine, outside, events.reverse ++ [opening], []⟩ (.failed e.text)
    | ⟨engine, events, _, .ok ()⟩ =>
      ofEngine filter ⟨engine, outside, events.reverse ++ [opening], []⟩ ((Text.lines input).map Text.lineText)

/-- A run makes an engine: what becomes of it depends on how the session of the engine is made. -/
def MakesEngine (s : Surroundings) (input : List UInt8) : Prop :=
  ∃ make make', ofInputBy make s input ≠ ofInputBy make' s input

variable (s : Surroundings) (input : List UInt8)

theorem ofInputBy_start : ofInputBy Lua.Session.start s input = ofInput s input := rfl

/-- A run whose configuration can be used makes its engine with it. -/
theorem ofInputBy_usable (usable : Usable s.config) (make : Option Nat → Except ScriptError Lua.Session) :
    (∀ session, make s.config.engine.memoryLimit? = .ok session → ofInputBy make s input =
      ofEngine (s.filter s.config.level)
        ⟨⟨s.config.engine, some session⟩, s.outside s.config.vault,
          [.initialized, .opening s.config.vault.root], []⟩
        ((Text.lines input).map Text.lineText)) ∧
    ∀ cause, make s.config.engine.memoryLimit? = .error cause →
      (ofInputBy make s input).ending = .failed (EngineError.initialization cause).text := by
  have valid : s.validConfig = .ok s.config := by
    rw [validConfig, (validate_eq_ok s.config).2 usable]
  constructor
  · intro session made
    simp only [ofInputBy, valid, Engine.new, Engine.startBy_fresh made]
    rfl
  · intro cause failed
    simp only [ofInputBy, valid, Engine.new, Engine.startBy_failed failed]
    rfl

/-- A run whose configuration cannot be used ends at once, however sessions are made. -/
theorem ofInputBy_unusable (unusable : ¬ Usable s.config) :
    ∃ fault, s.config.validate = .error fault ∧ ∀ make, ofInputBy make s input = ⟨[], [], .failed fault.message⟩ := by
  cases valid : s.config.validate with
  | ok u => exact absurd ((validate_eq_ok s.config).1 valid) unusable
  | error fault =>
    refine ⟨fault, rfl, fun make => ?_⟩
    rw [ofInputBy, validConfig, valid]

/-- **What a console is opened on.** Whatever the files, the variables, the arguments and the input: the files
give one configuration as a whole, the variables and the arguments settle each of its fields, and the run makes
an engine just if the configuration at the end can be used. It makes it with this configuration. Otherwise it
shows nothing, emits nothing, and ends with the exit code one. -/
theorem ofInput_config :
    (∃ base, (∀ c, s.Base c ↔ c = base) ∧ s.Settles base s.config) ∧
    (MakesEngine s input ↔ Usable s.config) ∧
    (Usable s.config → ∀ session, Lua.Session.start s.config.engine.memoryLimit? = .ok session →
      ofInput s input = ofEngine (s.filter s.config.level)
        ⟨⟨s.config.engine, some session⟩, s.outside s.config.vault,
          [.initialized, .opening s.config.vault.root], []⟩
        ((Text.lines input).map Text.lineText)) ∧
    (¬ Usable s.config → (ofInput s input).output = [] ∧ (ofInput s input).events = [] ∧
      (ofInput s input).exitCode? = some 1) := by
  refine ⟨⟨_, base_iff s, settles s⟩, ?_, fun usable session made => ?_, fun unusable => ?_⟩
  · constructor
    · rintro ⟨make, make', differ⟩
      by_contra unusable
      obtain ⟨fault, -, ends⟩ := ofInputBy_unusable s input unusable
      exact differ ((ends make).trans (ends make').symm)
    · intro usable
      -- Two causes of a failure are told apart by the run.
      have fails := fun cause => (ofInputBy_usable s input usable fun _ => .error cause).2 cause rfl
      refine ⟨fun _ => .error .notResumable, fun _ => .error .stackExhausted, fun same => ?_⟩
      have told := (fails .notResumable).symm.trans ((congrArg Run.ending same).trans (fails .stackExhausted))
      revert told
      decide
  · exact (ofInputBy_usable s input usable Lua.Session.start).1 session made
  · obtain ⟨fault, -, ends⟩ := ofInputBy_unusable s input unusable
    rw [← ofInputBy_start, ends]
    exact ⟨rfl, rfl, rfl⟩

end Run

end VaultConsole
