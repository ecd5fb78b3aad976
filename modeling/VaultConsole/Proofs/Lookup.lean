import Mathlib.Data.Prod.Lex
import Mathlib.Order.Bounds.Basic
import VaultConsole.Document.Lookup

/-!
# Documents that a query names

A query can name a document in three ways (`Matches`), and a lookup finds a document just if the query names
one. The first document is taken in the first of the three ways that gives any (`resolve_eq`). So the document
found is the least one by rank, which is the way in which it is named, and then by position (`resolve_least`).
-/

namespace VaultConsole.Lookup

/-- Whether a query names a document: by its basename, by the basename and the markdown ending, or by its
path. -/
def Matches (query : String) (d : Document) : Prop :=
  d.basename = query ∨ (∃ s, query = s ++ "." ++ markdownExtension ∧ d.basename = s) ∨ d.path = query

/-- A stem is what stands before the markdown ending. -/
theorem stem?_eq_some {query s : String} : stem? query = some s ↔ query = s ++ "." ++ markdownExtension := by
  -- The ending is compared from the back.
  have spelled : ∀ rest, (s ++ "." ++ markdownExtension).toList.reverse =
      ('.' :: markdownExtension.toList).reverse ++ rest ↔ s = String.ofList rest.reverse := by
    intro rest
    have ending : (".".toList ++ markdownExtension.toList).reverse = ('.' :: markdownExtension.toList).reverse := rfl
    rw [← String.toList_inj, String.toList_ofList, String.toList_append, String.toList_append, List.append_assoc,
      List.reverse_append, ending, List.append_cancel_left_eq, List.reverse_eq_iff]
  simp only [stem?]
  constructor
  · intro found
    split at found
    · rename_i ends
      obtain ⟨rest, split⟩ := List.isPrefixOf_iff_prefix.1 ends
      rw [← split, List.drop_left] at found
      rw [(Option.some.inj found).symm] at spelled ⊢
      have same := (spelled rest).2 rfl
      rw [split] at same
      exact String.toList_inj.1 (List.reverse_inj.1 same).symm
    · cases found
  · rintro rfl
    obtain ⟨rest, split⟩ : ∃ rest, s = String.ofList rest.reverse := ⟨s.toList.reverse, by simp⟩
    have same := (spelled rest).2 split
    rw [same, if_pos (List.isPrefixOf_iff_prefix.2 (List.prefix_append _ _)), List.drop_left, split]

variable {documents : List Document} {query : String} {d : Document}

/-- The first document in the first of the three ways that gives any. -/
theorem resolve_eq (documents : List Document) (query : String) :
    resolve documents query =
      (documents.find? (·.basename == query)).or
        (((stem? query).bind fun s => documents.find? (·.basename == s)).or
          (documents.find? (·.path == query))) := by
  -- A position is found first, and the document is taken there: the taking is moved into each of the ways.
  have first : ∀ (p : Document → Bool) (later : Option Nat),
      (documents.findIdx? p <|> later).bind (documents[·]?) =
        (documents.find? p).or (later.bind (documents[·]?)) := by
    intro p later
    rw [List.find?_eq_bind_findIdx?_getElem?]
    cases found : documents.findIdx? p with
    | none => rfl
    | some i =>
      obtain ⟨inside, -⟩ := List.findIdx?_eq_some_iff_getElem.1 found
      show documents[i]? = (documents[i]?).or (later.bind (documents[·]?))
      rw [List.getElem?_eq_getElem inside]
      rfl
  rw [resolve, position?, byBasename, first]
  cases stem? query with
  | none =>
    have third := @List.find?_eq_bind_findIdx?_getElem? _ documents (fun d => d.path == query)
    rw [third]
    rfl
  | some s =>
    rw [Option.bind_some, Option.bind_some, byBasename, first, ← List.find?_eq_bind_findIdx?_getElem?]

/-- What a lookup finds is a document that the query names. -/
theorem mem_of_resolve (h : resolve documents query = some d) : d ∈ documents ∧ Matches query d := by
  have holds : ∀ {p : Document → Bool}, documents.find? p = some d → d ∈ documents ∧ p d = true :=
    fun found => ⟨List.mem_of_find?_eq_some found, List.find?_some found⟩
  rw [resolve_eq, Option.or_eq_some_iff, Option.or_eq_some_iff] at h
  obtain found | ⟨-, found | ⟨-, found⟩⟩ := h
  · obtain ⟨listed, named⟩ := holds found
    exact ⟨listed, .inl (beq_iff_eq.1 named)⟩
  · obtain ⟨s, stem, found⟩ := Option.bind_eq_some_iff.1 found
    obtain ⟨listed, named⟩ := holds found
    exact ⟨listed, .inr (.inl ⟨s, stem?_eq_some.1 stem, beq_iff_eq.1 named⟩)⟩
  · obtain ⟨listed, named⟩ := holds found
    exact ⟨listed, .inr (.inr (beq_iff_eq.1 named))⟩

/-- A lookup finds nothing just if the query names no document. -/
theorem resolve_eq_none : resolve documents query = none ↔ ∀ d ∈ documents, ¬ Matches query d := by
  have nowhere : ∀ {p : Document → Bool} {P : Document → Prop}, (∀ d, p d = true ↔ P d) →
      (documents.find? p = none ↔ ∀ d ∈ documents, ¬ P d) := by
    intro p P same
    simp only [List.find?_eq_none, same]
  have unnamed : ((stem? query).bind fun s => documents.find? (·.basename == s)) = none ↔
      ∀ d ∈ documents, ¬ ∃ s, query = s ++ "." ++ markdownExtension ∧ d.basename = s := by
    rw [Option.bind_eq_none_iff]
    simp only [stem?_eq_some, nowhere fun _ => beq_iff_eq]
    constructor
    · rintro absent d listed ⟨s, ends, named⟩
      exact absent s ends d listed named
    · exact fun absent s ends d listed named => absent d listed ⟨s, ends, named⟩
  rw [resolve_eq, Option.or_eq_none_iff, Option.or_eq_none_iff, unnamed, nowhere fun _ => beq_iff_eq,
    nowhere fun _ => beq_iff_eq]
  simp only [Matches, not_or]
  constructor
  · rintro ⟨first, second, third⟩ d listed
    exact ⟨first d listed, second d listed, third d listed⟩
  · exact fun absent => ⟨fun d listed => (absent d listed).1, fun d listed => (absent d listed).2.1,
      fun d listed => (absent d listed).2.2⟩

/-! ## Ranks -/

/-- The rank of a document that a query names: its basename goes before its basename with the markdown ending,
and that before its path. -/
def rank? (query : String) (d : Document) : Option Nat :=
  if d.basename = query then some 0
  else if query = d.basename ++ "." ++ markdownExtension then some 1
  else if d.path = query then some 2
  else none

/-- The ranks and positions of the documents that a query names, in lexicographic order. -/
def candidates (documents : List Document) (query : String) : Set (Nat ×ₗ Nat) :=
  {k | ∃ d, documents[(ofLex k).2]? = some d ∧ rank? query d = some (ofLex k).1}

/-- The ways in which a query names documents, by rank. -/
def ways (query : String) : List (Document → Bool) :=
  [fun d => d.basename == query, fun d => query == d.basename ++ "." ++ markdownExtension,
    fun d => d.path == query]

/-- A document without a rank is one that the query does not name. -/
theorem rank?_eq_none {query : String} {d : Document} : rank? query d = none ↔ ¬ Matches query d := by
  have ending : (∃ s, query = s ++ "." ++ markdownExtension ∧ d.basename = s) ↔
      query = d.basename ++ "." ++ markdownExtension :=
    ⟨fun ⟨_, ends, named⟩ => named ▸ ends, fun ends => ⟨_, ends, rfl⟩⟩
  rw [rank?, Matches, ending]
  split
  · rename_i base
    simp [base]
  · rename_i base
    split
    · rename_i ends
      simp [← ends]
    · rename_i ends
      simp [base, ends]

theorem rank?_eq (query : String) (d : Document) : rank? query d = (ways query).findIdx? (· d) := by
  by_cases base : d.basename = query
  · simp [rank?, ways, List.findIdx?_cons, base]
  · by_cases ending : query = d.basename ++ "." ++ markdownExtension
    · simp [rank?, ways, List.findIdx?_cons, base, ← ending]
    · by_cases path : d.path = query
      · simp [rank?, ways, List.findIdx?_cons, base, ending, path]
      · simp [rank?, ways, List.findIdx?_cons, base, ending, path]

/-- A basename is looked up with the markdown ending by cutting the ending off the query. -/
theorem byBasename_stem (documents : List Document) (query : String) :
    (stem? query).bind (byBasename documents) =
      documents.findIdx? fun d => query == d.basename ++ "." ++ markdownExtension := by
  cases stem : stem? query with
  | none =>
    have unnamed : ∀ d : Document, (query == d.basename ++ "." ++ markdownExtension) = false := by
      intro d
      rw [beq_eq_false_iff_ne]
      intro ends
      rw [stem?_eq_some.2 ends] at stem
      cases stem
    exact (List.findIdx?_eq_none_iff.2 fun d _ => unnamed d).symm
  | some s =>
    have same : ∀ d : Document, (d.basename == s) = (query == d.basename ++ "." ++ markdownExtension) := by
      intro d
      rw [Bool.eq_iff_iff, beq_iff_eq, beq_iff_eq, ← stem?_eq_some, stem, Option.some.injEq, eq_comm]
    simp only [Option.bind_some, byBasename, same]

/-- The position found is the first one in the first way that gives any. -/
theorem position?_eq (documents : List Document) (query : String) :
    position? documents query = (ways query).findSome? (documents.findIdx? ·) := by
  rw [position?, byBasename_stem]
  simp only [ways, byBasename, List.findSome?_cons, List.findSome?_nil]
  cases documents.findIdx? fun d => d.basename == query with
  | some i => rfl
  | none =>
    cases documents.findIdx? fun d => query == d.basename ++ "." ++ markdownExtension with
    | some i => rfl
    | none =>
      cases documents.findIdx? fun d => d.path == query with
      | some i => rfl
      | none => rfl

/-- What is found first by the first of some predicates that holds anywhere is least by the number of the
predicate that holds of it, and then by position. -/
theorem isLeast_of_findSome? {α : Type} (ps : List (α → Bool)) (xs : List α) {i : Nat}
    (found : ps.findSome? (xs.findIdx? ·) = some i) :
    ∃ r, IsLeast {k : Nat ×ₗ Nat | ∃ x, xs[(ofLex k).2]? = some x ∧ ps.findIdx? (· x) = some (ofLex k).1}
      (toLex (r, i)) := by
  -- Induction on the predicates: where the first one holds nowhere, each other one is one further back.
  induction ps with
  | nil => cases found
  | cons p ps ih =>
    rw [List.findSome?_cons] at found
    cases here : xs.findIdx? p with
    | some j =>
      rw [here] at found
      obtain rfl := Option.some.inj found
      obtain ⟨inside, holds, first⟩ := List.findIdx?_eq_some_iff_getElem.1 here
      refine ⟨0, ⟨xs[j], List.getElem?_eq_getElem inside, ?_⟩, ?_⟩
      · simp [List.findIdx?_cons, holds]
      · rintro k ⟨x, listed, ranked⟩
        rw [Prod.Lex.le_iff]
        obtain zero | positive := Nat.eq_zero_or_pos (ofLex k).1
        · refine .inr ⟨zero.symm, Nat.le_of_not_lt fun before => ?_⟩
          obtain ⟨_, rfl⟩ := List.getElem?_eq_some_iff.1 listed
          have fails := first _ before
          simp only [List.findIdx?_cons, fails] at ranked
          rw [zero] at ranked
          simp at ranked
        · exact .inl positive
    | none =>
      rw [here] at found
      have further : ∀ x ∈ xs, (p :: ps).findIdx? (· x) = (ps.findIdx? (· x)).map (· + 1) := by
        intro x listed
        simp [List.findIdx?_cons, List.findIdx?_eq_none_iff.1 here x listed]
      obtain ⟨r, ⟨x, listed, ranked⟩, least⟩ := ih found
      refine ⟨r + 1, ⟨x, listed, ?_⟩, ?_⟩
      · rw [further x (List.mem_of_getElem? listed), ranked]
        rfl
      · rintro k ⟨y, listed', ranked'⟩
        rw [further y (List.mem_of_getElem? listed'), Option.map_eq_some_iff] at ranked'
        obtain ⟨r', ranked', back⟩ := ranked'
        have before := least (a := toLex (r', (ofLex k).2)) ⟨y, listed', ranked'⟩
        rw [Prod.Lex.le_iff] at before ⊢
        simp only [ofLex_toLex] at before ⊢
        omega

theorem isLeast_of_position? {i : Nat} (found : position? documents query = some i) :
    ∃ r, IsLeast (candidates documents query) (toLex (r, i)) := by
  rw [position?_eq] at found
  simp only [candidates, rank?_eq]
  exact isLeast_of_findSome? _ _ found

/-- A position is found just if it is that of the least candidate. -/
theorem position?_iff {i : Nat} :
    position? documents query = some i ↔ ∃ r, IsLeast (candidates documents query) (toLex (r, i)) := by
  refine ⟨isLeast_of_position?, ?_⟩
  rintro ⟨r, least⟩
  cases found : position? documents query with
  | none =>
    -- Then no way gives any document, so there is no candidate.
    obtain ⟨d, listed, ranked⟩ := least.1
    rw [position?_eq, List.findSome?_eq_none_iff] at found
    rw [rank?_eq] at ranked
    obtain ⟨inside, named, -⟩ := List.findIdx?_eq_some_iff_getElem.1 ranked
    have unnamed := List.findIdx?_eq_none_iff.1 (found _ (List.getElem_mem inside)) d
      (List.mem_of_getElem? listed)
    rw [unnamed] at named
    cases named
  | some j =>
    obtain ⟨r', least'⟩ := isLeast_of_position? found
    have same := least'.unique least
    rw [toLex_inj, Prod.mk.injEq] at same
    rw [same.2]

/-- **The order in which documents are found.** Nothing is found just if no document has a rank. Otherwise the
document found is the one that is least by rank, and by position among those of one rank; that is so for
positions too, where documents are listed several times. -/
theorem resolve_least (documents : List Document) (query : String) :
    (resolve documents query = none ↔ ∀ d ∈ documents, rank? query d = none) ∧
    (∀ i, position? documents query = some i ↔
      ∃ r, IsLeast (candidates documents query) (toLex (r, i))) ∧
    ∀ d, resolve documents query = some d ↔
      ∃ r i, documents[i]? = some d ∧ IsLeast (candidates documents query) (toLex (r, i)) := by
  refine ⟨?_, fun i => position?_iff, fun d => ?_⟩
  · simp only [resolve_eq_none, rank?_eq_none]
  · rw [resolve, Option.bind_eq_some_iff]
    constructor
    · rintro ⟨i, found, listed⟩
      obtain ⟨r, least⟩ := position?_iff.1 found
      exact ⟨r, i, listed, least⟩
    · rintro ⟨r, i, listed, least⟩
      exact ⟨i, position?_iff.2 ⟨r, least⟩, listed⟩

end VaultConsole.Lookup
