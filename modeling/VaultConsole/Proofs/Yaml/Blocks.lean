import VaultConsole.Proofs.FrontMatter
import VaultConsole.Proofs.Globals
import VaultConsole.Proofs.Yaml.Bare
import VaultConsole.Proofs.Yaml.Tables

/-!
# Front matter in scripts

A script that asks for the front matter of a text gets nothing just if the text has no block, an empty table if the
block is null, and else whatever it would get for the block as a text in YAML, be it a value or an error
(`AnswersFrontMatter`). Both functions come to an end at once, and what they raise does not tell which of them was
called (`endsBy_hosted`, `endsBy_given`), so that the machines agree in their next step. `frontMatter_calls` says
this of all calls.
-/

namespace VaultConsole.Lua

/-! ## Actions without calls -/

namespace Action

variable {α β : Type} {faults : Fault → Prop} {P : α → Prop} {Q : β → Prop} {a : Action α}

/-- Whether an action always comes to an end at once, with a result of a kind or with one of some faults. -/
def EndsBy (a : Action α) (faults : Fault → Prop) (P : α → Prop) : Prop :=
  ∀ h, (∃ x h', a.run h = .done x h' ∧ P x) ∨ ∃ f h', a.run h = .fail f h' ∧ faults f

theorem endsBy_pure {x : α} (right : P x) : (pure x : Action α).EndsBy faults P := fun h => .inl ⟨x, h, rfl, right⟩

theorem endsBy_update {f : Heap → Heap × α} {grows : ∀ h : Heap, h.Grows (f h).1} (right : ∀ h, P (f h).2) :
    (update f grows).EndsBy faults P := fun h => .inl ⟨(f h).2, (f h).1, rfl, right h⟩

theorem EndsBy.bind {f : α → Action β} (first : a.EndsBy faults P) (later : ∀ x, P x → (f x).EndsBy faults Q) :
    (a >>= f).EndsBy faults Q := by
  intro h
  obtain ⟨x, h', done, right⟩ | ⟨fault, h', failed, told⟩ := first h
  · rw [run_bind_of_done done]
    exact later x right h'
  · refine .inr ⟨fault, h', ?_, told⟩
    have split : (a >>= f).run h = (a.run h).bind fun x h => (f x).run h := rfl
    rw [split, failed]
    rfl

end Action

/-- The faults of putting an entry into a table. -/
def IsEntryFault (f : Fault) : Prop := f = .memory ∨ ∃ message, f = .runtime message

/-- The faults that do not depend on the function that has them. -/
def IsAnonymous (f : Fault) : Prop := f = .memory ∨ ∃ v, f = .value v

theorem Metamethod.endsBy_rawSet (r : Nat) (k v : Value) :
    (Metamethod.rawSet r k v).EndsBy IsEntryFault fun _ => True := by
  intro h
  simp only [Metamethod.rawSet]
  split
  · exact .inr ⟨_, _, rfl, .inr ⟨_, rfl⟩⟩
  · split
    · exact .inr ⟨_, _, rfl, .inr ⟨_, rfl⟩⟩
    · exact .inl ⟨_, _, rfl, trivial⟩
  · split
    · exact .inr ⟨_, _, rfl, .inl rfl⟩
    · exact .inl ⟨_, _, rfl, trivial⟩

namespace Machine

variable {host : Host} {m m' : Machine}

/-- What is raised does not tell which function was called. -/
theorem runNative_anonymous {a : Action (List Value)} {P : List Value → Prop} (ends : a.EndsBy IsAnonymous P)
    (m : Machine) (g g' : Value) : m.runNative host g a = m.runNative host g' a := by
  obtain ⟨vs, h, done, -⟩ | ⟨f, h, failed, rfl | ⟨v, rfl⟩⟩ := ends m.heap
  · rw [runNative_of_done done, runNative_of_done done]
  · rw [runNative_of_fault failed, runNative_of_fault failed]
    rfl
  · rw [runNative_of_fail failed, runNative_of_fail failed]

end Machine

namespace Library

open Lua.Action

/-! ## Documents become values at once -/

mutual

/-- A document becomes a value, which is nil just if the document is null, or an entry cannot be put. -/
theorem endsBy_ofYaml : (y : Yaml) → (ofYaml y).EndsBy IsEntryFault fun v => v.isNil = y.isNull
  | .null => endsBy_pure rfl
  | .bool _ => endsBy_pure rfl
  | .int n => by
    refine endsBy_pure ?_
    split
    · rfl
    · rfl
  | .float _ => endsBy_pure rfl
  | .string _ => endsBy_pure rfl
  | .sequence items => (endsBy_update (P := fun _ => True) fun _ => trivial).bind fun r _ =>
    (endsBy_putItems r 1 items).bind fun _ _ => endsBy_pure rfl
  | .mapping entries => (endsBy_update (P := fun _ => True) fun _ => trivial).bind fun r _ =>
    (endsBy_putEntries r entries).bind fun _ _ => endsBy_pure rfl
  | .tagged _ y => (endsBy_update (P := fun _ => True) fun _ => trivial).bind fun r _ =>
    (endsBy_ofYaml y).bind fun v _ => (Metamethod.endsBy_rawSet r _ v).bind fun _ _ => endsBy_pure rfl

theorem endsBy_putItems (r : Nat) : (i : Nat) → (items : List Yaml) →
    (putItems r i items).EndsBy IsEntryFault fun _ => True
  | _, [] => endsBy_pure trivial
  | i, y :: items => (endsBy_ofYaml y).bind fun v _ =>
    (Metamethod.endsBy_rawSet r _ v).bind fun _ _ => endsBy_putItems r (i + 1) items

theorem endsBy_putEntries (r : Nat) : (entries : List (Yaml × Yaml)) →
    (putEntries r entries).EndsBy IsEntryFault fun _ => True
  | [] => endsBy_pure trivial
  | (k, y) :: entries => (endsBy_ofYaml k).bind fun k _ => (endsBy_ofYaml y).bind fun v _ =>
    (Metamethod.endsBy_rawSet r k v).bind fun _ _ => endsBy_putEntries r entries

end

theorem endsBy_failHost {α : Type} {P : α → Prop} (e : ScriptError) :
    (failHost e : Action α).EndsBy IsAnonymous P := fun _ => .inr ⟨_, _, rfl, .inr ⟨_, rfl⟩⟩

/-- A fault of putting an entry becomes one of the host. -/
theorem endsBy_hosted {α : Type} {P : α → Prop} {a : Action α} (ends : a.EndsBy IsEntryFault P) :
    (hosted a).EndsBy IsAnonymous P := by
  intro h
  obtain ⟨x, h', done, right⟩ | ⟨f, h', failed, rfl | ⟨message, rfl⟩⟩ := ends h
  · exact .inl ⟨x, h', by simp only [hosted, done], right⟩
  · exact .inr ⟨.memory, h', by simp only [hosted, failed], .inl rfl⟩
  · simp only [hosted, failed]
    exact endsBy_failHost _ h'

/-- What a function of the host makes of what it has read. -/
def given (r : Except Yaml.Fault Yaml) : Action (List Value) := do
  let y ← orFault r
  return [← hosted (ofYaml y)]

theorem endsBy_given {r : Except Yaml.Fault Yaml} (solid : r ≠ .ok .null) :
    (given r).EndsBy IsAnonymous fun vs => vs ≠ [.nil] := by
  have read : (orFault r).EndsBy IsAnonymous fun y => y.isNull = false := by
    cases r with
    | error fault => exact endsBy_failHost _
    | ok y =>
      refine endsBy_pure ?_
      cases y with
      | null => exact absurd rfl solid
      | _ => rfl
  refine read.bind fun y solid => (endsBy_hosted (endsBy_ofYaml y)).bind fun v same => endsBy_pure ?_
  rintro ⟨⟩
  exact Bool.false_ne_true (solid.symm.trans same.symm)

/-- A block that is not null is read as a text in YAML. -/
theorem read_frontMatter {text block : String} (found : FrontMatter.extract text = some block)
    (solid : Yaml.read block ≠ .ok .null) : FrontMatter.read text = (Yaml.read block).map some := by
  simp only [FrontMatter.read, found]
  cases read : Yaml.read block with
  | error fault => rfl
  | ok y =>
    cases y with
    | null => exact absurd read solid
    | _ => rfl

/-! ## The two functions -/

section

variable {args : Args} {text block : String}

theorem run_textArgument (told : textOf (args.get 1) = .ok text) (h : Heap) :
    (textArgument args).run h = .done text h := by
  rw [textArgument, told]
  rfl

theorem run_parseYaml (told : textOf (args.get 1) = .ok text) (h : Heap) :
    (host .parseYaml args).run h = (given (Yaml.read text)).run h := by
  have split : host .parseYaml args = textArgument args >>= fun s => given (Yaml.read s) := rfl
  rw [split, run_bind_of_done (run_textArgument told h)]

theorem run_frontMatter (told : textOf (args.get 1) = .ok text) (h : Heap) :
    (host .frontMatter args).run h = (orFault (FrontMatter.read text) >>= fun y? =>
      match y? with
      | some y => given (.ok y)
      | none => pure [.nil]).run h := by
  have split : host .frontMatter args = textArgument args >>= fun s => orFault (FrontMatter.read s) >>= fun y? =>
      match y? with
      | some y => given (.ok y)
      | none => pure [.nil] := rfl
  rw [split, run_bind_of_done (run_textArgument told h)]

/-- A text without a block has nothing. -/
theorem run_frontMatter_absent (told : textOf (args.get 1) = .ok text) (absent : FrontMatter.extract text = none)
    (h : Heap) : (host .frontMatter args).run h = .done [.nil] h := by
  rw [run_frontMatter told, FrontMatter.read, absent]
  rfl

/-- A block that is null has an empty table. -/
theorem run_frontMatter_null (told : textOf (args.get 1) = .ok text) (found : FrontMatter.extract text = some block)
    (nothing : Yaml.read block = .ok .null) (h : Heap) :
    (host .frontMatter args).run h = .done [.table h.tables.size] (h.newTable (Table.withRoom 0 0)).1 := by
  simp only [run_frontMatter told, FrontMatter.read, found, nothing]
  rfl

/-- Any other block has what it is as a text in YAML. -/
theorem run_frontMatter_block (told : textOf (args.get 1) = .ok text) (found : FrontMatter.extract text = some block)
    (solid : Yaml.read block ≠ .ok .null) (h : Heap) :
    (host .frontMatter args).run h = (given (Yaml.read block)).run h := by
  rw [run_frontMatter told, read_frontMatter found solid]
  cases Yaml.read block with
  | error fault => rfl
  | ok y => rfl

end

end Library

/-! ## Calls -/

/-- What comes of a call for the front matter of a text. It gives nil just if the text has no block. A block that is
no document is an error of the host, a null block is an empty table, which is new, and for any block that is not null
the machine goes on as if it read the block as a text in YAML. -/
structure AnswersFrontMatter (host : Host) (m m' : Machine) (text : String) : Prop where
  absent : (m.step host).focus = .give [.nil] ↔ FrontMatter.extract text = none
  unchanged : FrontMatter.extract text = none → m.step host = { m' with focus := .give [.nil] }
  fault : ∀ block fault, FrontMatter.extract text = some block → Yaml.read block = .error fault →
    m.step host =
      { m' with
        focus := .raise (.failure m'.heap.failures.size)
        heap := (m'.heap.newFailure (.callback Library.traceback (.host (.yaml fault.message)))).1 }
  nothing : ∀ block, FrontMatter.extract text = some block → Yaml.read block = .ok .null →
    ∃ r h, m.step host = { m' with focus := .give [.table r], heap := h } ∧
      m'.heap.Extends h ∧ m'.heap.tables.size ≤ r ∧ (h.table r).IsRecord []
  block : ∀ block, FrontMatter.extract text = some block → Yaml.read block ≠ .ok .null →
    ∀ (p : Machine) (args : Args), p.Calls (.builtin (.host .parseYaml)) args m' →
      Library.textOf (args.get 1) = .ok block → m.step host = p.step host

namespace Machine

variable {m m' : Machine} {args : Args} {text : String}

theorem answersFrontMatter (host : Host) (calls : m.Calls (.builtin (.host .frontMatter)) args m')
    (told : Library.textOf (args.get 1) = .ok text) : AnswersFrontMatter host m m' text := by
  have goes := step_of_calls host calls
  have unchanged : FrontMatter.extract text = none → m.step host = { m' with focus := .give [.nil] } := by
    intro absent
    rw [goes, runNative_of_done (Library.run_frontMatter_absent told absent _)]
  have empty : ∀ block, FrontMatter.extract text = some block → Yaml.read block = .ok .null → m.step host =
      { m' with
        focus := .give [.table m'.heap.tables.size]
        heap := (m'.heap.newTable (Table.withRoom 0 0)).1 } := by
    intro block found nothing
    rw [goes, runNative_of_done (Library.run_frontMatter_null told found nothing _)]
  have ends : ∀ block, FrontMatter.extract text = some block → Yaml.read block ≠ .ok .null →
      (Library.host .frontMatter args).EndsBy IsAnonymous fun vs => vs ≠ [.nil] := by
    intro block found solid h
    rw [Library.run_frontMatter_block told found solid]
    exact Library.endsBy_given solid h
  refine ⟨⟨fun nothing => ?_, fun absent => ?_⟩, unchanged, ?_, ?_, ?_⟩
  · -- With a block, a table is given, or what is no nil, or nothing at all.
    cases found : FrontMatter.extract text with
    | none => rfl
    | some block =>
      exfalso
      by_cases solid : Yaml.read block = .ok .null
      · rw [empty block found solid] at nothing
        cases nothing
      · rw [goes] at nothing
        obtain ⟨vs, h, done, solid'⟩ | ⟨f, h, failed, -⟩ := ends block found solid m'.heap
        · rw [runNative_of_done done] at nothing
          exact solid' (Focus.give.inj nothing)
        · rw [runNative_of_fault failed] at nothing
          cases nothing
  · rw [unchanged absent]
  · intro block fault found read
    have solid : Yaml.read block ≠ .ok .null := by
      rw [read]
      nofun
    rw [goes, runNative_congr (Library.run_frontMatter_block told found solid _), read]
    exact runNative_of_fail rfl _
  · intro block found read
    refine ⟨_, _, empty block found read, ?_, Nat.le_refl _, ?_⟩
    · exact Heap.extends_of_newTable (.refl _ _)
    · rw [Heap.table_newTable]
      exact Table.isRecord_nil _ _
  · -- Both functions do the same with the block, and what they raise does not name them.
    intro block found solid p args' calls' told'
    have same := Library.run_frontMatter_block told found solid
    calc m.step host = m'.runNative host _ (Library.host .frontMatter args) := goes
      _ = m'.runNative host (.builtin (.host .parseYaml)) (Library.host .frontMatter args) :=
        runNative_anonymous (ends block found solid) m' _ _
      _ = m'.runNative host (.builtin (.host .parseYaml)) (Library.host .parseYaml args') :=
        runNative_congr ((same _).trans (Library.run_parseYaml told' _).symm) _
      _ = p.step host := (step_of_calls host calls').symm

/-- Texts with the same front matter are told apart by no call for it. -/
theorem step_frontMatter_congr (host : Host) {p : Machine} {args' : Args} {text' : String}
    (calls : m.Calls (.builtin (.host .frontMatter)) args m')
    (calls' : p.Calls (.builtin (.host .frontMatter)) args' m') (told : Library.textOf (args.get 1) = .ok text)
    (told' : Library.textOf (args'.get 1) = .ok text') (same : FrontMatter.extract text = FrontMatter.extract text') :
    m.step host = p.step host := by
  have read : FrontMatter.read text = FrontMatter.read text' := by rw [FrontMatter.read, same, ← FrontMatter.read]
  rw [step_of_calls host calls, step_of_calls host calls']
  refine runNative_congr ?_ _
  rw [Library.run_frontMatter told, Library.run_frontMatter told', read]

end Machine

/-- A session finds the two functions under their names. -/
theorem Session.exists_app (limit? : Option Nat) :
    let h := (Session.fresh limit?).heap
    ∃ app, h.rawGet h.globals (.text "app") = .table app ∧
      h.rawGet app (.text "getFrontmatter") = .builtin (.host .frontMatter) ∧
      h.rawGet app (.text "parseYaml") = .builtin (.host .parseYaml) := by
  obtain ⟨globals, app, -, record, -, ⟨there, functions⟩, -⟩ := Library.exists_globals limit?
  have named : ((Library.startHeap limit?).table app).IsRecord (Library.named .host Library.appFunctions) := by
    rw [functions]
    exact Table.isRecord_tableOf (by decide) (by decide)
  rw [← Session.table_fresh] at named
  refine ⟨app, Session.rawGet_fresh limit? record there, named.get_text ?_, named.get_text ?_⟩
  · simp [Library.named, Library.appFunctions]
  · simp [Library.named, Library.appFunctions]

/-! ## Texts in a new session -/

theorem read_eq_null_iff {text : String} :
    Yaml.read text = .ok .null ↔ (Yaml.read text).toOption.any Yaml.isNull = true := by
  cases Yaml.read text with
  | error fault => exact ⟨nofun, nofun⟩
  | ok y =>
    cases y with
    | null => exact ⟨fun _ => rfl, fun _ => rfl⟩
    | _ => exact ⟨nofun, nofun⟩

/-- A machine that is about to call a function of the host with a text. -/
def asking (f : HostFunction) (text : String) : Machine :=
  { (default : Machine) with
    focus := .enter (.builtin (.host f)) [.text text], heap := (Session.fresh none).heap }

/-- The same machine as it waits for the result. -/
def answering : Machine := { (default : Machine) with heap := (Session.fresh none).heap, focus := .done }

theorem asking_calls (f : HostFunction) (text : String) :
    (asking f text).Calls (.builtin (.host f)) [.text text] answering := .enter answering _ _

/-- Front matter with a list. -/
def listLayout : FrontMatter.Layout where
  mark := []
  opening := "---\n".toList
  block := ["a: [1]\n".toList]
  closing := "---\n".toList
  rest := []
  mark_eq := .inl rfl
  opening_isLine := ⟨"---".toList, rfl, by decide⟩
  opens := by decide
  block_areLines := List.forall_mem_singleton.2 ⟨"a: [1]".toList, rfl, by decide⟩
  block_open := by decide
  closing_isLine := .inl ⟨"---".toList, rfl, by decide⟩
  closes := by decide

/-- **Front matter in scripts.** Whoever calls the function for the front matter of a text, wherever: it tells a text
without a block from one with a null block, which it takes for an empty mapping, and any other block is what it is as
a text in YAML, whether that is a value or an error. A block of blank lines and comments is null. What follows the
closing line does not matter. A new session has the two functions under their names. -/
theorem frontMatter_calls (host : Host) :
    (∀ (m m' : Machine) (args : Args) (text : String), m.Calls (.builtin (.host .frontMatter)) args m' →
      Library.textOf (args.get 1) = .ok text → AnswersFrontMatter host m m' text) ∧
    (∀ l : FrontMatter.Layout, (∀ line ∈ l.block, Yaml.IsBare line) → Yaml.read l.content = .ok .null) ∧
    (∀ l : FrontMatter.Layout, l.rest = [] → FrontMatter.IsLine l.closing →
      ∀ (x y : String) (m p m' : Machine) (args args' : Args), m.Calls (.builtin (.host .frontMatter)) args m' →
        p.Calls (.builtin (.host .frontMatter)) args' m' →
        Library.textOf (args.get 1) = .ok (String.ofList l.text ++ x) →
        Library.textOf (args'.get 1) = .ok (String.ofList l.text ++ y) → m.step host = p.step host) ∧
    ∀ limit?, let h := (Session.fresh limit?).heap
      ∃ app, h.rawGet h.globals (.text "app") = .table app ∧
        h.rawGet app (.text "getFrontmatter") = .builtin (.host .frontMatter) ∧
        h.rawGet app (.text "parseYaml") = .builtin (.host .parseYaml) := by
  refine ⟨fun m m' args text calls told => Machine.answersFrontMatter host calls told,
    fun l bare => Yaml.read_bare bare, ?_, Session.exists_app⟩
  intro l ended isLine x y m p m' args args' calls calls' told told'
  refine Machine.step_frontMatter_congr host calls calls' told told' ?_
  rw [l.extract_append ended isLine, l.extract_append ended isLine]

/-- A text without front matter gives nil, one with nothing in it an empty table, and one with a list what the list is
as a text in YAML, with whatever body. -/
theorem frontMatter_calls_texts :
    ∀ host,
      ((asking .frontMatter "a: [1]\n").step host).focus = .give [.nil] ∧
      (∃ r h, (asking .frontMatter "---\n# nothing\n---\nx").step host =
          { answering with focus := .give [.table r], heap := h } ∧ (h.table r).IsRecord []) ∧
      (asking .frontMatter "---\na: [1]\n---\nx").step host = (asking .parseYaml "a: [1]\n").step host ∧
      (asking .frontMatter "---\na: [1]\n---\nx").step host =
        (asking .frontMatter "---\na: [1]\n---\ny").step host := by
  intro host
  obtain ⟨answers, -, same, -⟩ := frontMatter_calls host
  have answers := fun text => answers _ _ _ text (asking_calls .frontMatter text) (Library.textOf_text text)
  have null : Yaml.read "# nothing\n" = .ok .null := read_eq_null_iff.2 (by decide +kernel)
  have solid : Yaml.read "a: [1]\n" ≠ .ok .null := mt read_eq_null_iff.1 (by decide +kernel)
  refine ⟨(answers _).absent.2 (by decide +kernel), ?_, ?_, ?_⟩
  · obtain ⟨r, h, gives, -, -, empty⟩ :=
      (answers "---\n# nothing\n---\nx").nothing "# nothing\n" (by decide +kernel) null
    exact ⟨r, h, gives, empty⟩
  · exact (answers _).block "a: [1]\n" (by decide +kernel) solid _ _ (asking_calls .parseYaml _) (Library.textOf_text _)
  · exact same listLayout rfl ⟨"---".toList, rfl, by decide⟩ "x" "y" _ _ _ _ _ (asking_calls .frontMatter _)
      (asking_calls .frontMatter _) (Library.textOf_text _) (Library.textOf_text _)

/-- A block that says that it is null is taken for an empty mapping. -/
example : (FrontMatter.read "---\n~ # nothing\n---\n").toOption.join.any (· matches .mapping []) = true := by
  decide +kernel

end VaultConsole.Lua
