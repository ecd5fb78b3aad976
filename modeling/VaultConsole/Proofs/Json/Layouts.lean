import VaultConsole.Proofs.Json.Grammar

/-!
# Trees in every layout

A tree whose numbers are numbers of JSON (`Wellformed`) is read from what it is written as, in every layout whose
parts are set apart by blanks (`isRead`). By induction on the tree: what follows a value is a comma, a
closing bracket, or blanks before one, and ends a number. So the two layouts are texts of one and the same tree
(`isTextOf_write_iff`), and trees that are written alike are the same (`write_inj`).
-/

namespace VaultConsole.Json

open Setting.Json (skip isSpace IsBlank skip_append skip_cons text?_quote isBlank_compact isBlank_indented)

/-! ## Trees with numbers -/

mutual

/-- Whether every number of a tree is a number of JSON. -/
def Wellformed : Json → Prop
  | .number token => IsNumber token.toList
  | .array vs => WellformedItems vs
  | .object es => WellformedEntries es
  | _ => True

/-- Whether the numbers of items are. -/
def WellformedItems : List Json → Prop
  | [] => True
  | v :: vs => Wellformed v ∧ WellformedItems vs

/-- Whether the numbers of entries are. -/
def WellformedEntries : List (String × Json) → Prop
  | [] => True
  | (_, v) :: es => Wellformed v ∧ WellformedEntries es

end

theorem wellformedItems_iff {vs : List Json} : WellformedItems vs ↔ ∀ v ∈ vs, v.Wellformed := by
  induction vs with
  | nil => simp [WellformedItems]
  | cons v vs ih => rw [WellformedItems, ih, List.forall_mem_cons]

theorem wellformedEntries_iff {es : List (String × Json)} :
    WellformedEntries es ↔ ∀ e ∈ es, e.2.Wellformed := by
  induction es with
  | nil => simp [WellformedEntries]
  | cons e es ih => rw [WellformedEntries, ih, List.forall_mem_cons]

/-! ## What follows a value -/

theorem not_isNumeric_of_isSpace {c : Char} (space : isSpace c = true) : isNumeric c = false := by
  simp only [isSpace, Bool.or_eq_true, beq_iff_eq] at space
  obtain ((rfl | rfl) | rfl) | rfl := space
  · rfl
  · rfl
  · rfl
  · rfl

theorem endsNumber_nil : EndsNumber [] := by
  intro c head
  cases head

theorem endsNumber_cons (mark : Char) (ends : isNumeric mark = false) (r : List Char) : EndsNumber (mark :: r) := by
  intro c first
  obtain rfl : mark = c := Option.some.inj first
  exact ends

/-- A mark ends a number, with blanks before it or none. -/
theorem endsNumber_append {blanks : List Char} (spaced : ∀ c ∈ blanks, isSpace c = true) (mark : Char)
    (ends : isNumeric mark = false) (r : List Char) : EndsNumber (blanks ++ mark :: r) := by
  cases blanks with
  | nil => exact endsNumber_cons mark ends r
  | cons b bs => exact endsNumber_cons b (not_isNumeric_of_isSpace (spaced b List.mem_cons_self)) _

/-- No blank comes before a value. -/
theorem Reads.skip_eq {cs r : List Char} {v : Json} (read : Reads cs (.value v) r) : skip cs = cs := by
  obtain ⟨c, cs, rfl, begins⟩ := read.exists_cons
  refine skip_cons ?_ cs
  cases space : isSpace c with
  | false => rfl
  | true =>
    simp only [isSpace, Bool.or_eq_true, beq_iff_eq] at space
    obtain ((rfl | rfl) | rfl) | rfl := space
    · cases begins
    · cases begins
    · cases begins
    · cases begins

/-! ## Reading what is written -/

section

variable {l : Layout} (blank : IsBlank l)
include blank

/-- The key of an entry is read, and then what comes after the colon. -/
theorem readsKey_quote (depth : Nat) (key : String) (r : List Char) : ∃ inside,
    ReadsKey (l.line depth ++ (quote key ++ (l.colon ++ r))) key inside ∧ skip inside = skip r := by
  obtain ⟨before, after, colon, spaced, spaced'⟩ := blank.colon
  refine ⟨after ++ r, ⟨key.toList.flatMap escape ++ '"' :: (l.colon ++ r), l.colon ++ r, ?_, text?_quote key _, ?_⟩,
    skip_append spaced' r⟩
  · rw [skip_append (blank.line depth)]
    simp [quote, skip_cons (show isSpace '"' = false from rfl)]
  · rw [colon, List.append_assoc, skip_append spaced, List.cons_append, skip_cons rfl]

/-- Whether a tree is read from what it is written as, whatever follows it. -/
def IsRead (l : Layout) (depth : Nat) (v : Json) : Prop :=
  ∀ r, EndsNumber r → Reads (write l depth v ++ r) (.value v) r

/-- Items are read up to the closing bracket, if each of them is. -/
theorem reads_writeItems {depth : Nat} (v : Json) (vs : List Json) (read : ∀ w ∈ v :: vs, IsRead l depth w)
    {close : List Char} (spaced : ∀ c ∈ close, isSpace c = true) (r : List Char) :
    Reads (l.line depth ++ (write l depth v ++ (writeItems l depth vs ++ (close ++ ']' :: r))))
      (.items (v :: vs)) r := by
  induction vs generalizing v with
  | nil =>
    have value := read v List.mem_cons_self _ (endsNumber_append spaced ']' rfl r)
    -- A number is over at the closing bracket or at the blanks before it.
    have closes : skip (close ++ ']' :: r) = ']' :: r := by rw [skip_append spaced, skip_cons rfl]
    refine .lastItem ?_ closes
    rwa [skip_append (blank.line depth), writeItems, List.nil_append, value.skip_eq]
  | cons w ws ih =>
    have items := ih w fun x member => read x (List.mem_cons_of_mem v member)
    have value := read v List.mem_cons_self _ (endsNumber_cons ',' rfl
      (l.line depth ++ (write l depth w ++ (writeItems l depth ws ++ (close ++ ']' :: r)))))
    -- What follows the first item begins with a comma, and a comma ends a number too.
    have written : writeItems l depth (w :: ws) ++ (close ++ ']' :: r) = ',' :: (l.line depth ++
        (write l depth w ++ (writeItems l depth ws ++ (close ++ ']' :: r)))) := by
      simp [writeItems]
    refine .item ?_ (skip_cons rfl _) items
    rw [skip_append (blank.line depth), written, value.skip_eq]
    exact value

/-- Entries are read up to the closing bracket, if the value of each of them is. -/
theorem reads_writeEntries {depth : Nat} (e : String × Json) (es : List (String × Json))
    (read : ∀ f ∈ e :: es, IsRead l depth f.2) {close : List Char} (spaced : ∀ c ∈ close, isSpace c = true)
    (r : List Char) :
    Reads (l.line depth ++ (quote e.1 ++ (l.colon ++ (write l depth e.2 ++ (writeEntries l depth es ++
      (close ++ '\x7d' :: r)))))) (.entries (e :: es)) r := by
  induction es generalizing e with
  | nil =>
    have value := read e List.mem_cons_self _ (endsNumber_append spaced '\x7d' rfl r)
    obtain ⟨inside, key, start⟩ := readsKey_quote blank depth e.1 (write l depth e.2 ++ (close ++ '\x7d' :: r))
    have closes : skip (close ++ '\x7d' :: r) = '\x7d' :: r := by rw [skip_append spaced, skip_cons rfl]
    refine .lastEntry key ?_ closes
    rwa [start, value.skip_eq]
  | cons f es ih =>
    have entries := ih f fun x member => read x (List.mem_cons_of_mem e member)
    have value := read e List.mem_cons_self _ (endsNumber_cons ',' rfl
      (l.line depth ++ (quote f.1 ++ (l.colon ++ (write l depth f.2 ++ (writeEntries l depth es ++
        (close ++ '\x7d' :: r)))))))
    -- As for items, with a key and a colon before every value.
    have written : writeEntries l depth (f :: es) ++ (close ++ '\x7d' :: r) = ',' :: (l.line depth ++
        (quote f.1 ++ (l.colon ++ (write l depth f.2 ++ (writeEntries l depth es ++ (close ++ '\x7d' :: r)))))) := by
      simp [writeEntries]
    rw [written]
    obtain ⟨inside, key, start⟩ := readsKey_quote blank depth e.1 (write l depth e.2 ++ _)
    refine .entry key ?_ (skip_cons rfl _) entries
    rw [start, value.skip_eq]
    exact value

/-- **A tree is read from what it is written as.** -/
theorem isRead (depth : Nat) (v : Json) (wellformed : v.Wellformed) : IsRead l depth v := by
  intro r ends
  match v, wellformed with
  | .null, _ => exact .null r
  | .bool true, _ => exact .yes r
  | .bool false, _ => exact .no r
  | .number token, wellformed =>
    have read := Reads.number (w := token.toList) rfl (by simpa [Wellformed] using wellformed) ends
    rwa [String.ofList_toList] at read
  | .string s, _ =>
    rw [write, quote, List.cons_append, List.append_assoc]
    exact .string (text?_quote s r)
  | .array [], _ => exact .noItems (skip_cons rfl r)
  | .array (v :: vs), wellformed =>
    rw [Wellformed, wellformedItems_iff] at wellformed
    -- What is in brackets is smaller, and is read at one level more.
    have inside := reads_writeItems blank v vs (fun w member => isRead (depth + 1) w (wellformed w member))
      (blank.line depth) r
    simpa [write] using Reads.array inside
  | .object [], _ => exact .noEntries (skip_cons rfl r)
  | .object (e :: es), wellformed =>
    rw [Wellformed, wellformedEntries_iff] at wellformed
    have inside := reads_writeEntries blank e es (fun f member => isRead (depth + 1) f.2 (wellformed f member))
      (blank.line depth) r
    simpa [write] using Reads.object inside
termination_by sizeOf v
decreasing_by
  · rw [Json.array.sizeOf_spec]
    have smaller := List.sizeOf_lt_of_mem member
    omega
  · rw [Json.object.sizeOf_spec]
    have smaller := List.sizeOf_lt_of_mem member
    obtain ⟨key, w⟩ := f
    rw [Prod.mk.sizeOf_spec] at smaller
    show sizeOf w < _
    omega

/-- A tree is the only one that what it is written as is a text of. -/
theorem isTextOf_write_iff {v : Json} (wellformed : v.Wellformed) (u : Json) :
    IsTextOf (String.ofList (write l 0 v)) u ↔ u = v := by
  have text : IsTextOf (String.ofList (write l 0 v)) v := by
    have read := isRead blank 0 v wellformed [] endsNumber_nil
    rw [List.append_nil] at read
    exact ⟨[], by rwa [String.toList_ofList, read.skip_eq], rfl⟩
  constructor
  · exact fun other => other.unique text
  · rintro rfl
    exact text

/-- Trees that are written alike are the same. -/
theorem write_inj {v u : Json} (wellformed : v.Wellformed) (wellformed' : u.Wellformed) :
    String.ofList (write l 0 v) = String.ofList (write l 0 u) ↔ v = u := by
  constructor
  · intro same
    have text := (isTextOf_write_iff blank wellformed v).2 rfl
    rw [same] at text
    exact (isTextOf_write_iff blank wellformed' v).1 text
  · rintro rfl
    rfl

end

end VaultConsole.Json
