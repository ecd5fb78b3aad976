import VaultConsole.Proofs.Lookup
import VaultConsole.Proofs.Vault.History
import VaultConsole.Proofs.Vault.Scripts

/-!
# A vault in memory that changes while it is asked

A vault in memory, the host that asks about its documents and a script that does so take turns in any order:
a `Scene` is the vault and the script at one moment, and an `Event` is what can happen next. Every answer comes
from the vault of its moment, which is what the changes before made of a new one (`answers_live`), and
`AnswersFrom` says what is answered then, in terms of these changes alone. A document that is listed can always
be read, so that no question fails but for a document that is not there.
-/

namespace VaultConsole

namespace MemoryVault

/-! ## What is answered -/

/-- What a vault answers about its documents after a history of changes. -/
structure AnswersFrom (v : MemoryVault) (history : List Change) : Prop where
  /-- What the vault stores is told by the history. -/
  records : v.Records history
  /-- All files are the markdown documents, in the order of the vault, -/
  listed : v.view.allFiles =
    (v.paths.filter fun p => (Document.mk p).extension == "md").map fun p => Descriptor.ofDocument ⟨p⟩
  /-- without their contents. -/
  plain : ∀ d ∈ v.view.allFiles, d.content? = none
  /-- The active file is the one that the history selects, without its content. -/
  active : ∀ d, v.view.activeFile = some d ↔
    ∃ path, Change.Selects history path ∧ d = Descriptor.ofDocument ⟨path⟩
  /-- A document is not found just if the query names none of the markdown documents, -/
  missing : ∀ query, v.view.document query = .error (.documentNotFound query) ↔
    ∀ path, Change.Holds history path → (Document.mk path).extension = "md" → ¬ Lookup.Matches query ⟨path⟩
  /-- and otherwise it is the one that the lookup gives, with the content of its latest insertion. -/
  found : ∀ query, v.view.document query ≠ .error (.documentNotFound query) →
    ∃ d content, Lookup.resolve v.markdownFiles query = some d ∧ Change.Leaves history d.path content ∧
      v.view.document query = .ok ((Descriptor.ofDocument d).withContent content)
  /-- Reading never fails. -/
  readable : ∀ query path cause, v.view.document query ≠ .error (.read path cause)
  /-- What is found is a markdown document. -/
  markdown : ∀ query d, v.view.document query = .ok d →
    (Document.mk d.path).extension = "md" ∧ Change.Holds history d.path
  /-- The content fails as the document does, -/
  refused : ∀ query e, v.view.content query = .error e ↔ v.view.document query = .error e
  /-- and is otherwise the content of the document. -/
  content : ∀ query text, v.view.content query = .ok text ↔
    ∃ d, v.view.document query = .ok d ∧ d.content? = some text

variable {v : MemoryVault} {history : List Change}

theorem mem_markdownFiles {d : Document} :
    d ∈ v.markdownFiles ↔ d.path ∈ v.paths ∧ d.extension = "md" := by
  simp only [markdownFiles, List.mem_filter, List.mem_map, Document.isMarkdown, beq_iff_eq]
  constructor
  · rintro ⟨⟨path, stored, rfl⟩, extension⟩
    exact ⟨stored, extension⟩
  · rintro ⟨stored, extension⟩
    exact ⟨⟨d.path, stored, rfl⟩, extension⟩

/-- A lookup that finds nothing is told, and one that finds a document leads to its content. -/
theorem Tracks.document_cases (tracks : v.Tracks history) (query : String) :
    (Lookup.resolve v.markdownFiles query = none ∧
      v.view.document query = .error (.documentNotFound query)) ∨
    ∃ d content, Lookup.resolve v.markdownFiles query = some d ∧ Change.Leaves history d.path content ∧
      v.view.document query = .ok ((Descriptor.ofDocument d).withContent content) := by
  cases resolved : Lookup.resolve v.markdownFiles query with
  | none => exact .inl ⟨rfl, by simp only [Vault.document, view, resolved]⟩
  | some d =>
    obtain ⟨stored, -⟩ := mem_markdownFiles.1 (Lookup.mem_of_resolve resolved).1
    obtain ⟨content, held⟩ := mem_paths_iff.1 stored
    have read : v.read d = .ok content := read_eq_ok.2 held
    exact .inr ⟨d, content, rfl, (tracks.read d.path content).1 held,
      by simp only [Vault.document, view, resolved, read]⟩

/-- What is found is told as found, and not as missing. -/
theorem Tracks.document_ok (tracks : v.Tracks history) {query : String} {d : Descriptor}
    (found : v.view.document query = .ok d) :
    ∃ document content, Lookup.resolve v.markdownFiles query = some document ∧
      Change.Leaves history document.path content ∧ d = (Descriptor.ofDocument document).withContent content := by
  obtain ⟨-, missing⟩ | ⟨document, content, resolved, leaves, same⟩ := tracks.document_cases query
  · cases missing.symm.trans found
  · exact ⟨document, content, resolved, leaves, Except.ok.inj (found.symm.trans same)⟩

theorem Tracks.answersFrom (tracks : v.Tracks history) : v.AnswersFrom history where
  records := tracks.records
  listed := by
    simp only [Vault.allFiles, view, markdownFiles, List.filter_map, List.map_map]
    rfl
  plain := by
    intro d listed
    obtain ⟨document, -, rfl⟩ := List.mem_map.1 listed
    rfl
  active := by
    intro d
    simp only [Vault.activeFile, view, activeFile, Option.map_map, Option.map_eq_some_iff, tracks.active]
    exact exists_congr fun path => and_congr_right fun _ => eq_comm
  missing := by
    intro query
    -- It is told as missing just if no held path answers the query, whatever is read.
    have unfound : v.view.document query = .error (.documentNotFound query) ↔
        Lookup.resolve v.markdownFiles query = none := by
      obtain ⟨resolved, missing⟩ | ⟨d, content, resolved, -, found⟩ := tracks.document_cases query
      · exact iff_of_true missing resolved
      · simp only [found, resolved, reduceCtorEq]
    rw [unfound, Lookup.resolve_eq_none]
    simp only [mem_markdownFiles, tracks.mem_paths]
    constructor
    · exact fun absent path held extension => absent ⟨path⟩ ⟨held, extension⟩
    · exact fun absent d listed => absent d.path listed.1 listed.2
  found := by
    intro query there
    obtain ⟨-, missing⟩ | found := tracks.document_cases query
    · exact absurd missing there
    · exact found
  readable := by
    intro query path cause failed
    obtain ⟨-, missing⟩ | ⟨d, content, -, -, found⟩ := tracks.document_cases query
    · cases missing.symm.trans failed
    · cases found.symm.trans failed
  markdown := by
    intro query d found
    obtain ⟨document, content, resolved, leaves, rfl⟩ := tracks.document_ok found
    exact ⟨(mem_markdownFiles.1 (Lookup.mem_of_resolve resolved).1).2, content, leaves⟩
  refused _ _ := Vault.content_eq_error
  content _ _ := Vault.content_eq_ok

/-! ## Vault, host and script in turns -/

/-- What the host asks about the documents of a vault. -/
inductive Question where
  | activeFile
  | allFiles
  | document (query : String)
  | content (query : String)

/-- What comes of an event: an answer to the host, or the script after a step. -/
inductive Answer where
  | file (d? : Option Descriptor)
  | files (ds : List Descriptor)
  | document (result : Except BridgeError Descriptor)
  | content (result : Except BridgeError String)
  | script (m : Lua.Machine)

/-- What a vault answers the host. -/
def Question.answer (v : Vault) : Question → Answer
  | .activeFile => .file v.activeFile
  | .allFiles => .files v.allFiles
  | .document query => .document (v.document query)
  | .content query => .content (v.content query)

/-- What can happen to a vault and a script beside it. -/
inductive Event where
  | change (x : Change)
  | ask (q : Question)
  /-- The script makes a step, on a platform. -/
  | step (p : Lua.Platform)
  /-- Another script takes its place. -/
  | load (m : Lua.Machine)

/-- The change that an event makes to the vault. -/
def Event.change? : Event → Option Change
  | .change x => some x
  | _ => none

/-- What comes of an event, with the vault and the script as they are at the moment. -/
def Event.answer (v : MemoryVault) (script : Lua.Machine) : Event → Option Answer
  | .ask q => some (q.answer v.view)
  | .step p => some (.script (script.step (Outside.around v.view p).host))
  | _ => none

/-- A vault in memory and a script at one moment. -/
structure Scene where
  vault : MemoryVault
  script : Lua.Machine

namespace Scene

/-- A scene after an event. -/
def move (s : Scene) : Event → Scene
  | .change x => { s with vault := s.vault.change x }
  | .ask _ => s
  | .step p => { s with script := s.script.step (Outside.around s.vault.view p).host }
  | .load m => { s with script := m }

/-- A scene after events in order. -/
def run (s : Scene) (events : List Event) : Scene := events.foldl move s

/-- What comes of events in order. -/
def answers (s : Scene) : List Event → List (Option Answer)
  | [] => []
  | x :: events => x.answer s.vault s.script :: answers (s.move x) events

theorem move_vault (s : Scene) (x : Event) :
    (s.move x).vault = (x.change?.toList).foldl MemoryVault.change s.vault := by
  cases x with
  | _ => rfl

/-- The vault is what the changes make of it, whatever is asked in between. -/
theorem run_vault (s : Scene) (events : List Event) :
    (s.run events).vault = (events.filterMap Event.change?).foldl MemoryVault.change s.vault := by
  induction events generalizing s with
  | nil => rfl
  | cons x events ih =>
    have later := ih (s.move x)
    rw [move_vault] at later
    cases x with
    | _ => exact later

/-- The answers to later events are those of the scene after the earlier ones. -/
theorem answers_append (s : Scene) (events later : List Event) :
    s.answers (events ++ later) = s.answers events ++ (s.run events).answers later := by
  induction events generalizing s with
  | nil => rfl
  | cons x events ih => exact congrArg (List.cons _) (ih (s.move x))

theorem length_answers (s : Scene) (events : List Event) : (s.answers events).length = events.length := by
  induction events generalizing s with
  | nil => rfl
  | cons x events ih => exact congrArg (· + 1) (ih (s.move x))

end Scene

/-- **The answers are those of the vault as it is.** A vault in memory is changed, asked by the host and asked by
scripts in any order. What comes of each event depends on the vault that the changes before it have made, and
on the machine that makes a step and the platform of that step; that vault answers the host from these changes, it
answers the calls of every script by the same answers, scripts find the content of a note equal to what they get
for its content, and both fail alike where there is no document. The scripts of a new session find the functions
for this under their names. -/
theorem answers_live (name : String) (script : Lua.Machine) (before : List Event) (x : Event)
    (after : List Event) :
    let start : Scene := ⟨empty name, script⟩
    let history := before.filterMap Event.change?
    let v := MemoryVault.run name history
    (start.answers (before ++ x :: after))[before.length]? = some (x.answer v (start.run before).script) ∧
      v.AnswersFrom history ∧
      (∀ p, (Outside.around v.view p).AnswersCalls ∧ (Outside.around v.view p).ComparesEqual ∧
        (Outside.around v.view p).FailsAlike) ∧
      ∀ limit?, (Lua.Session.fresh limit?).heap.OffersHost := by
  intro start history v
  have calls : ∀ p, (Outside.around v.view p).AnswersCalls := fun p =>
    Outside.answersCalls (fun _ => rfl) fun _ => rfl
  refine ⟨?_, (tracks_run name history).answersFrom,
    fun p => ⟨calls p, (calls p).comparesEqual, (calls p).failsAlike⟩, Lua.Session.offersHost_fresh⟩
  -- The answer comes right after those to the events before it.
  have vault : (start.run before).vault = v := start.run_vault before
  rw [Scene.answers_append, List.getElem?_append_right (Nat.le_of_eq (start.length_answers before)),
    Scene.length_answers, Nat.sub_self, ← vault]
  rfl

end MemoryVault

end VaultConsole
