import VaultConsole.Proofs.Opening

/-!
# What the variables of the environment override

A configuration that is overridden takes from each variable the field that belongs to it, just if the variable
names a value for the field, and keeps the field otherwise (`Overrides`). `withEnvironment_overrides` says that
this holds of what a console computes, for all variables and configurations. A variable that holds no text counts
as one that is not set.
-/

namespace VaultConsole.ConsoleConfig

open Environment Surroundings

/-- The variables override one configuration by another one: a field has the value that its variable names, or,
if this names none, the value that it had. -/
structure Overrides (valueOf? : String → Option String) (c overridden : ConsoleConfig) : Prop where
  chunkName : Chosen (fun name => valueOf? "LUA_CONSOLE_CHUNK_NAME" = some name ∧ name ≠ "")
    c.engine.chunkName overridden.engine.chunkName
  memoryLimit : Chosen
    (fun limit? => ∃ text n, valueOf? "LUA_CONSOLE_MEMORY_LIMIT" = some text ∧ NamesLimit text n ∧ limit? = some n)
    c.engine.memoryLimit? overridden.engine.memoryLimit?
  root : Chosen (fun path => valueOf? "LUA_CONSOLE_VAULT_ROOT" = some path) c.vault.root overridden.vault.root
  active : overridden.vault.active? = c.vault.active?
  level : Chosen (fun level => ∃ text, valueOf? "LUA_CONSOLE_LOG_LEVEL" = some text ∧ NamesLevel text level)
    c.level overridden.level

/-- A configuration with all the fields of another one is that one. -/
theorem eq_of_fields {c d : ConsoleConfig} (chunkName : c.engine.chunkName = d.engine.chunkName)
    (memoryLimit : c.engine.memoryLimit? = d.engine.memoryLimit?) (root : c.vault.root = d.vault.root)
    (active : c.vault.active? = d.vault.active?) (level : c.level = d.level) : c = d := by
  obtain ⟨⟨_, _⟩, ⟨_, _⟩, _⟩ := c
  obtain ⟨⟨_, _⟩, ⟨_, _⟩, _⟩ := d
  cases chunkName
  cases memoryLimit
  cases root
  cases active
  cases level
  rfl

variable (valueOf? : String → Option String)

/-- The variables override a configuration by one configuration only. -/
theorem overrides_iff {c overridden : ConsoleConfig} :
    Overrides valueOf? c overridden ↔ overridden = c.withEnvironment (.ofLookup valueOf?) := by
  constructor
  · rintro ⟨chunkName, memoryLimit, root, active, level⟩
    exact eq_of_fields ((chosen_chunkName c (.ofLookup valueOf?)).1 chunkName)
      ((chosen_memoryLimit c (.ofLookup valueOf?)).1 memoryLimit) ((chosen_root c (.ofLookup valueOf?)).1 root)
      active ((chosen_level c (.ofLookup valueOf?)).1 level)
  · rintro rfl
    exact ⟨(chosen_chunkName c (.ofLookup valueOf?)).2 rfl, (chosen_memoryLimit c (.ofLookup valueOf?)).2 rfl,
      (chosen_root c (.ofLookup valueOf?)).2 rfl, rfl, (chosen_level c (.ofLookup valueOf?)).2 rfl⟩

/-- What is chosen is chosen over itself too. -/
theorem chosen_again {α : Type} {names : α → Prop} {fallback v : α} : Chosen names fallback v → Chosen names v v
  | .inl named => .inl named
  | .inr ⟨unnamed, _⟩ => .inr ⟨unnamed, rfl⟩

/-- What overrides a configuration is overridden by itself. -/
theorem Overrides.again {valueOf? : String → Option String} {c overridden : ConsoleConfig}
    (overrides : Overrides valueOf? c overridden) : Overrides valueOf? overridden overridden :=
  ⟨chosen_again overrides.chunkName, chosen_again overrides.memoryLimit, chosen_again overrides.root, rfl,
    chosen_again overrides.level⟩

/-- **What the variables override.** Whatever the variables and the configuration: a console takes each field from
its variable just if this names a value for it, and keeps it otherwise; a field depends on its own variable and on
what it was, and on nothing else; and the variables that override a configuration once change nothing more. -/
theorem withEnvironment_overrides (c : ConsoleConfig) :
    (∀ overridden, overridden = c.withEnvironment (.ofLookup valueOf?) ↔ Overrides valueOf? c overridden) ∧
    (∀ (others : String → Option String) (d : ConsoleConfig),
      let overridden := c.withEnvironment (.ofLookup valueOf?)
      let overridden' := d.withEnvironment (.ofLookup others)
      (valueOf? "LUA_CONSOLE_CHUNK_NAME" = others "LUA_CONSOLE_CHUNK_NAME" →
        c.engine.chunkName = d.engine.chunkName → overridden.engine.chunkName = overridden'.engine.chunkName) ∧
      (valueOf? "LUA_CONSOLE_MEMORY_LIMIT" = others "LUA_CONSOLE_MEMORY_LIMIT" →
        c.engine.memoryLimit? = d.engine.memoryLimit? →
        overridden.engine.memoryLimit? = overridden'.engine.memoryLimit?) ∧
      (valueOf? "LUA_CONSOLE_VAULT_ROOT" = others "LUA_CONSOLE_VAULT_ROOT" →
        c.vault.root = d.vault.root → overridden.vault.root = overridden'.vault.root) ∧
      (valueOf? "LUA_CONSOLE_LOG_LEVEL" = others "LUA_CONSOLE_LOG_LEVEL" →
        c.level = d.level → overridden.level = overridden'.level)) ∧
    (c.withEnvironment (.ofLookup valueOf?)).withEnvironment (.ofLookup valueOf?) =
      c.withEnvironment (.ofLookup valueOf?) := by
  have overrides := (overrides_iff valueOf? (c := c)).2 rfl
  refine ⟨fun overridden => (overrides_iff valueOf?).symm, fun others d => ⟨?_, ?_, ?_, ?_⟩, ?_⟩
  · intro same kept
    have chosen := overrides.chunkName
    rw [same, kept] at chosen
    exact (chosen_chunkName d (.ofLookup others)).1 chosen
  · intro same kept
    have chosen := overrides.memoryLimit
    rw [same, kept] at chosen
    exact (chosen_memoryLimit d (.ofLookup others)).1 chosen
  · intro same kept
    have chosen := overrides.root
    rw [same, kept] at chosen
    exact (chosen_root d (.ofLookup others)).1 chosen
  · intro same kept
    have chosen := overrides.level
    rw [same, kept] at chosen
    exact (chosen_level d (.ofLookup others)).1 chosen
  · exact ((overrides_iff valueOf?).1 overrides.again).symm

end VaultConsole.ConsoleConfig
