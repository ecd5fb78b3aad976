import VaultConsole.Proofs.Resolution
import VaultConsole.Proofs.Utf8
import VaultConsole.Vault.Directory

/-!
# Names as text

What the bytes of a name say: `chars?_eq_some` when they spell characters, `isHidden_ofChars` when the name
is hidden, `extension?_eq_some` what its extension is. `ofNames?_eq_some` says which path names spell
together, and `joined_injective` that different names spell different paths.
-/

namespace VaultConsole

namespace FileName

/-- A name is read as the characters that spell it. -/
theorem chars?_eq_some {name : FileName} {cs : List Char} : name.chars? = some cs ↔ ofChars cs = name := by
  unfold chars?
  cases read : Text.Utf8.decodeOnto [] 0 name with
  | error fault =>
    constructor
    · intro h
      cases h
    · intro h
      rw [Text.Utf8.decodeOnto_eq_ok_iff.2 h] at read
      cases read
  | ok cs' =>
    rw [Text.Utf8.decodeOnto_eq_ok_iff] at read
    subst read
    constructor
    · intro h
      cases h
      rfl
    · intro h
      have same := Text.Utf8.decodeOnto_encode cs [] 0
      rw [show Text.Utf8.encode cs = Text.Utf8.encode cs' from h, Text.Utf8.decodeOnto_encode] at same
      exact congrArg some (Except.ok.inj same)

/-- A name that is a text is hidden if it begins with a point. -/
theorem isHidden_ofChars (cs : List Char) :
    (ofChars cs).isHidden = ((ofChars cs).head? == some point) := by
  have read : (ofChars cs).chars? = some cs := chars?_eq_some.2 rfl
  simp [isHidden, read]

/-- A name has an extension without points if it is something, a point and the extension. -/
theorem extension?_eq_some {name extension : FileName} (noPoint : point ∉ extension) :
    name.extension? = some extension ↔ ∃ stem ≠ [], name = stem ++ point :: extension := by
  unfold extension?
  constructor
  · intro h
    -- From the end: the bytes up to the last point are the extension, and more than the point is left.
    have parts := List.takeWhile_append_dropWhile (p := (· != point)) (l := name.reverse)
    split at h
    case h_1 c d rest below =>
      have first : c = point := by
        have := List.head?_dropWhile_not (· != point) name.reverse
        rw [below] at this
        simpa using this
      rw [below, first] at parts
      have same : name.reverse.takeWhile (· != point) = extension.reverse := by
        rw [← Option.some.inj h, List.reverse_reverse]
      refine ⟨(d :: rest).reverse, by simp, ?_⟩
      rw [same] at parts
      rw [← List.reverse_reverse name, ← parts]
      simp
    case h_2 => cases h
  · rintro ⟨stem, front, rfl⟩
    have spared : ∀ b ∈ extension.reverse, (b != point) = true := by
      intro b member
      rw [List.mem_reverse] at member
      exact bne_iff_ne.2 fun same => noPoint (same ▸ member)
    have bytes : (stem ++ point :: extension).reverse = extension.reverse ++ point :: stem.reverse := by
      simp
    rw [bytes, List.dropWhile_append_of_pos spared, List.takeWhile_append_of_pos spared]
    obtain ⟨d, rest, below⟩ := List.exists_cons_of_ne_nil (List.reverse_ne_nil_iff.2 front)
    simp [below]

end FileName

/-! ## Paths of names -/

namespace Text

variable {α : Type} [BEq α] [LawfulBEq α]

theorem pieces_of_notMem {separator : α} {as : List α} (h : separator ∉ as) :
    pieces separator as = [as] := by
  induction as with
  | nil => rfl
  | cons a as ih =>
    rw [List.mem_cons, not_or] at h
    have differs : (a == separator) = false := beq_eq_false_iff_ne.2 fun same => h.1 same.symm
    simp only [pieces, differs, ih h.2]
    rfl

theorem pieces_append_cons {separator : α} {as : List α} (h : separator ∉ as) (rest : List α) :
    pieces separator (as ++ separator :: rest) = as :: pieces separator rest := by
  induction as with
  | nil => simp [pieces]
  | cons a as ih =>
    rw [List.mem_cons, not_or] at h
    have differs : (a == separator) = false := beq_eq_false_iff_ne.2 fun same => h.1 same.symm
    simp only [List.cons_append, pieces, differs, ih h.2]
    rfl

/-- Sequences without separators are found again in what they are joined to. -/
theorem pieces_intercalate {separator : α} {parts : List (List α)} (filled : parts ≠ [])
    (h : ∀ part ∈ parts, separator ∉ part) :
    pieces separator (List.intercalate [separator] parts) = parts := by
  induction parts with
  | nil => exact absurd rfl filled
  | cons part parts ih =>
    have first := h part List.mem_cons_self
    cases parts with
    | nil =>
      rw [List.intercalate_singleton]
      exact pieces_of_notMem first
    | cons next parts =>
      rw [List.intercalate_cons_cons, List.append_assoc, List.singleton_append, pieces_append_cons first,
        ih (by simp) fun p hp => h p (List.mem_cons_of_mem _ hp)]

end Text

namespace Path

/-- The bytes of names joined by separators. -/
def joined (names : List FileName) : List UInt8 := List.intercalate [separator] names

/-- Names without separators are told apart by their paths. -/
theorem joined_injective {names names' : List FileName} (filled : names ≠ []) (filled' : names' ≠ [])
    (h : ∀ name ∈ names, separator ∉ name) (h' : ∀ name ∈ names', separator ∉ name)
    (same : joined names = joined names') : names = names' := by
  rw [← Text.pieces_intercalate filled h, ← Text.pieces_intercalate filled' h']
  exact congrArg (Text.pieces separator) same

theorem ofChars_append (cs cs' : List Char) :
    FileName.ofChars (cs ++ cs') = FileName.ofChars cs ++ FileName.ofChars cs' :=
  List.flatMap_append

/-- Texts are joined as their bytes are. -/
theorem ofChars_intercalate (texts : List (List Char)) :
    FileName.ofChars (List.intercalate ['/'] texts) = joined (texts.map FileName.ofChars) := by
  have slash : FileName.ofChars ['/'] = [separator] := by decide
  induction texts with
  | nil => rfl
  | cons text texts ih =>
    cases texts with
    | nil => simp [joined]
    | cons next texts =>
      rw [List.intercalate_cons_cons, ofChars_append, ofChars_append, ih, slash]
      simp [joined, List.intercalate_cons_cons]

theorem mapM_chars?_eq_some {names : List FileName} {texts : List (List Char)} :
    names.mapM FileName.chars? = some texts ↔ texts.map FileName.ofChars = names := by
  induction names generalizing texts with
  | nil => simp [eq_comm]
  | cons name names ih =>
    rw [List.mapM_cons]
    constructor
    · intro h
      obtain ⟨text, first, h⟩ := Option.bind_eq_some_iff.1 h
      obtain ⟨texts', rest, h⟩ := Option.bind_eq_some_iff.1 h
      cases h
      rw [List.map_cons, ih.1 rest, FileName.chars?_eq_some.1 first]
    · intro h
      cases texts with
      | nil => cases h
      | cons text texts =>
        rw [List.map_cons, List.cons.injEq] at h
        rw [FileName.chars?_eq_some.2 h.1, ih.2 h.2]
        rfl

/-- Names spell a path together if each is a text; its bytes are then theirs joined. -/
theorem ofNames?_eq_some {names : List FileName} {path : String} (h : ofNames? names = some path) :
    (∀ name ∈ names, ∃ cs, FileName.ofChars cs = name) ∧
      FileName.ofChars path.toList = joined names := by
  obtain ⟨texts, read, rfl⟩ := Option.map_eq_some_iff.1 h
  rw [mapM_chars?_eq_some] at read
  subst read
  constructor
  · intro name member
    obtain ⟨cs, -, spelled⟩ := List.mem_map.1 member
    exact ⟨cs, spelled⟩
  · rw [String.toList_ofList, ofChars_intercalate]

theorem isSome_ofNames? {names : List FileName} (h : ∀ name ∈ names, ∃ cs, FileName.ofChars cs = name) :
    (ofNames? names).isSome := by
  have texts : ∃ texts : List (List Char), texts.map FileName.ofChars = names := by
    induction names with
    | nil => exact ⟨[], rfl⟩
    | cons name names ih =>
      obtain ⟨cs, spelled⟩ := h name List.mem_cons_self
      obtain ⟨texts, rest⟩ := ih fun n hn => h n (List.mem_cons_of_mem _ hn)
      exact ⟨cs :: texts, by rw [List.map_cons, spelled, rest]⟩
  obtain ⟨texts, spelled⟩ := texts
  rw [ofNames?, mapM_chars?_eq_some.2 spelled]
  rfl

end Path

end VaultConsole
