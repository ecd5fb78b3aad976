import VaultConsole.Lua.Code

/-!
# Equality of code

Two pieces of code are compared part by part. `Proto.eq_of_same` turns the outcome of such a comparison
into an equation, so that what the compiler makes of a fixed source can be computed.
-/

namespace VaultConsole.Lua

mutual

/-- Whether two expressions are the same. -/
def Code.same : Code → Code → Bool
  | .const v, .const v' => v == v'
  | .dots, .dots => true
  | .local v n, .local v' n' => v == v' && decide (n = n')
  | .carried i n, .carried i' n' => i == i' && decide (n = n')
  | .function p, .function p' => p.same p'
  | .index o k l, .index o' k' l' => o.same o' && k.same k' && l == l'
  | .call f args l, .call f' args' l' => f.same f' && sameCodes args args' && l == l'
  | .method o n args m l, .method o' n' args' m' l' =>
    o.same o' && decide (n = n') && sameCodes args args' && m == m' && l == l'
  | .unary op e l, .unary op' e' l' => op == op' && e.same e' && l == l'
  | .binary op a b l, .binary op' a' b' l' => op == op' && a.same a' && b.same b' && l == l'
  | .and a b, .and a' b' => a.same a' && b.same b'
  | .or a b, .or a' b' => a.same a' && b.same b'
  | .concat es l, .concat es' l' => sameCodes es es' && l == l'
  | .table fs i e, .table fs' i' e' => sameFields fs fs' && i == i' && e == e'
  | .paren e, .paren e' => e.same e'
  | _, _ => false
termination_by structural c => c

def sameCodes : List Code → List Code → Bool
  | [], [] => true
  | c :: cs, c' :: cs' => c.same c' && sameCodes cs cs'
  | _, _ => false
termination_by structural c => c

/-- Whether two fields of table constructors are the same. -/
def CodeField.same : CodeField → CodeField → Bool
  | .item c, .item c' => c.same c'
  | .entry k c l, .entry k' c' l' => k.same k' && c.same c' && l == l'
  | _, _ => false
termination_by structural c => c

def sameFields : List CodeField → List CodeField → Bool
  | [], [] => true
  | f :: fs, f' :: fs' => f.same f' && sameFields fs fs'
  | _, _ => false
termination_by structural c => c

/-- Whether two functions are the same. -/
def Proto.same : Proto → Proto → Bool
  | .mk c ps va s n cs b, .mk c' ps' va' s' n' cs' b' =>
    decide (c = c') && ps == ps' && va == va' && s == s' && n == n' && decide (cs = cs') &&
      sameSteps b b'
termination_by structural p => p

/-- Whether two statements are the same. -/
def Step.same : Step → Step → Bool
  | .locals vs es, .locals vs' es' => vs == vs' && sameCodes es es'
  | .closing vs es i n l, .closing vs' es' i' n' l' =>
    vs == vs' && sameCodes es es' && i == i' && decide (n = n') && l == l'
  | .assign ts es l, .assign ts' es' l' => sameCodes ts ts' && sameCodes es es' && l == l'
  | .call e, .call e' => e.same e'
  | .block b, .block b' => sameSteps b b'
  | .loop c b, .loop c' b' => c.same c' && sameSteps b b'
  | .repeat b, .repeat b' => sameSteps b b'
  | .leaveIf c, .leaveIf c' => c.same c'
  | .branch c y n, .branch c' y' n' => c.same c' && sameSteps y y' && sameSteps n n'
  | .numericFor v a b c s p l, .numericFor v' a' b' c' s' p' l' =>
    v == v' && a.same a' && b.same b' && c.same c' && sameSteps s s' && p == p' && l == l'
  | .genericFor vs es s l, .genericFor vs' es' s' l' =>
    vs == vs' && sameCodes es es' && sameSteps s s' && l == l'
  | .localFunction v p, .localFunction v' p' => v == v' && p.same p'
  | .ret es l, .ret es' l' => sameCodes es es' && l == l'
  | .tailCall e, .tailCall e' => e.same e'
  | .leave, .leave => true
  | .goto l, .goto l' => decide (l = l')
  | .label l, .label l' => decide (l = l')
  | _, _ => false
termination_by structural c => c

def sameSteps : List Step → List Step → Bool
  | [], [] => true
  | s :: ss, s' :: ss' => s.same s' && sameSteps ss ss'
  | _, _ => false
termination_by structural c => c

end

/-! ## What is the same is equal -/

mutual

theorem Code.eq_of_same : (c other : Code) → c.same other = true → c = other
  -- One case for each form: two of different forms are never the same.
  | .const v, other, h => by
    cases other with
    | const v' =>
      simp only [Code.same, beq_iff_eq] at h
      rw [h]
    | _ => cases h
  | .dots, other, h => by
    cases other with
    | dots =>
      rfl
    | _ => cases h
  | .«local» v n, other, h => by
    cases other with
    | «local» v' n' =>
      simp only [Code.same, Bool.and_eq_true, beq_iff_eq, decide_eq_true_eq] at h
      obtain ⟨h1, h2⟩ := h
      rw [h1, h2]
    | _ => cases h
  | .carried i n, other, h => by
    cases other with
    | carried i' n' =>
      simp only [Code.same, Bool.and_eq_true, beq_iff_eq, decide_eq_true_eq] at h
      obtain ⟨h1, h2⟩ := h
      rw [h1, h2]
    | _ => cases h
  | .function p, other, h => by
    cases other with
    | function p' =>
      simp only [Code.same] at h
      rw [Proto.eq_of_same p p' h]
    | _ => cases h
  | .index o k l, other, h => by
    cases other with
    | index o' k' l' =>
      simp only [Code.same, Bool.and_eq_true, beq_iff_eq] at h
      obtain ⟨⟨h1, h2⟩, h3⟩ := h
      rw [Code.eq_of_same o o' h1, Code.eq_of_same k k' h2, h3]
    | _ => cases h
  | .call f as l, other, h => by
    cases other with
    | call f' as' l' =>
      simp only [Code.same, Bool.and_eq_true, beq_iff_eq] at h
      obtain ⟨⟨h1, h2⟩, h3⟩ := h
      rw [Code.eq_of_same f f' h1, eq_of_sameCodes as as' h2, h3]
    | _ => cases h
  | .method o n as m l, other, h => by
    cases other with
    | method o' n' as' m' l' =>
      simp only [Code.same, Bool.and_eq_true, beq_iff_eq, decide_eq_true_eq] at h
      obtain ⟨⟨⟨⟨h1, h2⟩, h3⟩, h4⟩, h5⟩ := h
      rw [Code.eq_of_same o o' h1, h2, eq_of_sameCodes as as' h3, h4, h5]
    | _ => cases h
  | .unary op e l, other, h => by
    cases other with
    | unary op' e' l' =>
      simp only [Code.same, Bool.and_eq_true, beq_iff_eq] at h
      obtain ⟨⟨h1, h2⟩, h3⟩ := h
      rw [h1, Code.eq_of_same e e' h2, h3]
    | _ => cases h
  | .binary op a b l, other, h => by
    cases other with
    | binary op' a' b' l' =>
      simp only [Code.same, Bool.and_eq_true, beq_iff_eq] at h
      obtain ⟨⟨⟨h1, h2⟩, h3⟩, h4⟩ := h
      rw [h1, Code.eq_of_same a a' h2, Code.eq_of_same b b' h3, h4]
    | _ => cases h
  | .and a b, other, h => by
    cases other with
    | and a' b' =>
      simp only [Code.same, Bool.and_eq_true] at h
      obtain ⟨h1, h2⟩ := h
      rw [Code.eq_of_same a a' h1, Code.eq_of_same b b' h2]
    | _ => cases h
  | .or a b, other, h => by
    cases other with
    | or a' b' =>
      simp only [Code.same, Bool.and_eq_true] at h
      obtain ⟨h1, h2⟩ := h
      rw [Code.eq_of_same a a' h1, Code.eq_of_same b b' h2]
    | _ => cases h
  | .concat es l, other, h => by
    cases other with
    | concat es' l' =>
      simp only [Code.same, Bool.and_eq_true, beq_iff_eq] at h
      obtain ⟨h1, h2⟩ := h
      rw [eq_of_sameCodes es es' h1, h2]
    | _ => cases h
  | .table fs i e, other, h => by
    cases other with
    | table fs' i' e' =>
      simp only [Code.same, Bool.and_eq_true, beq_iff_eq] at h
      obtain ⟨⟨h1, h2⟩, h3⟩ := h
      rw [eq_of_sameFields fs fs' h1, h2, h3]
    | _ => cases h
  | .paren e, other, h => by
    cases other with
    | paren e' =>
      simp only [Code.same] at h
      rw [Code.eq_of_same e e' h]
    | _ => cases h

theorem eq_of_sameCodes : (xs ys : List Code) → sameCodes xs ys = true → xs = ys
  | [], ys, h => by
    cases ys with
    | nil => rfl
    | cons y ys => cases h
  | x :: xs, ys, h => by
    cases ys with
    | nil => cases h
    | cons y ys =>
      simp only [sameCodes, Bool.and_eq_true] at h
      rw [Code.eq_of_same x y h.1, eq_of_sameCodes xs ys h.2]

theorem CodeField.eq_of_same : (f other : CodeField) → f.same other = true → f = other
  | .item c, other, h => by
    cases other with
    | item c' =>
      simp only [CodeField.same] at h
      rw [Code.eq_of_same c c' h]
    | _ => cases h
  | .entry k c l, other, h => by
    cases other with
    | entry k' c' l' =>
      simp only [CodeField.same, Bool.and_eq_true, beq_iff_eq] at h
      obtain ⟨⟨h1, h2⟩, h3⟩ := h
      rw [Code.eq_of_same k k' h1, Code.eq_of_same c c' h2, h3]
    | _ => cases h

theorem eq_of_sameFields : (xs ys : List CodeField) → sameFields xs ys = true → xs = ys
  | [], ys, h => by
    cases ys with
    | nil => rfl
    | cons y ys => cases h
  | x :: xs, ys, h => by
    cases ys with
    | nil => cases h
    | cons y ys =>
      simp only [sameFields, Bool.and_eq_true] at h
      rw [CodeField.eq_of_same x y h.1, eq_of_sameFields xs ys h.2]

/-- Functions that are the same are equal. -/
theorem Proto.eq_of_same : (p other : Proto) → p.same other = true → p = other
  | .mk c ps va s n cs b, .mk c' ps' va' s' n' cs' b', h => by
    simp only [Proto.same, Bool.and_eq_true, beq_iff_eq, decide_eq_true_eq] at h
    obtain ⟨⟨⟨⟨⟨⟨h1, h2⟩, h3⟩, h4⟩, h5⟩, h6⟩, h7⟩ := h
    rw [h1, h2, h3, h4, h5, h6, eq_of_sameSteps b b' h7]

theorem Step.eq_of_same : (s other : Step) → s.same other = true → s = other
  -- One case for each form, as for expressions.
  | .locals vs es, other, h => by
    cases other with
    | locals vs' es' =>
      simp only [Step.same, Bool.and_eq_true, beq_iff_eq] at h
      obtain ⟨h1, h2⟩ := h
      rw [h1, eq_of_sameCodes es es' h2]
    | _ => cases h
  | .closing vs es i n l, other, h => by
    cases other with
    | closing vs' es' i' n' l' =>
      simp only [Step.same, Bool.and_eq_true, beq_iff_eq, decide_eq_true_eq] at h
      obtain ⟨⟨⟨⟨h1, h2⟩, h3⟩, h4⟩, h5⟩ := h
      rw [h1, eq_of_sameCodes es es' h2, h3, h4, h5]
    | _ => cases h
  | .assign ts es l, other, h => by
    cases other with
    | assign ts' es' l' =>
      simp only [Step.same, Bool.and_eq_true, beq_iff_eq] at h
      obtain ⟨⟨h1, h2⟩, h3⟩ := h
      rw [eq_of_sameCodes ts ts' h1, eq_of_sameCodes es es' h2, h3]
    | _ => cases h
  | .call e, other, h => by
    cases other with
    | call e' =>
      simp only [Step.same] at h
      rw [Code.eq_of_same e e' h]
    | _ => cases h
  | .block b, other, h => by
    cases other with
    | block b' =>
      simp only [Step.same] at h
      rw [eq_of_sameSteps b b' h]
    | _ => cases h
  | .loop c b, other, h => by
    cases other with
    | loop c' b' =>
      simp only [Step.same, Bool.and_eq_true] at h
      obtain ⟨h1, h2⟩ := h
      rw [Code.eq_of_same c c' h1, eq_of_sameSteps b b' h2]
    | _ => cases h
  | .«repeat» b, other, h => by
    cases other with
    | «repeat» b' =>
      simp only [Step.same] at h
      rw [eq_of_sameSteps b b' h]
    | _ => cases h
  | .leaveIf c, other, h => by
    cases other with
    | leaveIf c' =>
      simp only [Step.same] at h
      rw [Code.eq_of_same c c' h]
    | _ => cases h
  | .branch c y n, other, h => by
    cases other with
    | branch c' y' n' =>
      simp only [Step.same, Bool.and_eq_true] at h
      obtain ⟨⟨h1, h2⟩, h3⟩ := h
      rw [Code.eq_of_same c c' h1, eq_of_sameSteps y y' h2, eq_of_sameSteps n n' h3]
    | _ => cases h
  | .numericFor v a b c s p l, other, h => by
    cases other with
    | numericFor v' a' b' c' s' p' l' =>
      simp only [Step.same, Bool.and_eq_true, beq_iff_eq] at h
      obtain ⟨⟨⟨⟨⟨⟨h1, h2⟩, h3⟩, h4⟩, h5⟩, h6⟩, h7⟩ := h
      rw [h1, Code.eq_of_same a a' h2, Code.eq_of_same b b' h3, Code.eq_of_same c c' h4, eq_of_sameSteps s s' h5,
        h6, h7]
    | _ => cases h
  | .genericFor vs es s l, other, h => by
    cases other with
    | genericFor vs' es' s' l' =>
      simp only [Step.same, Bool.and_eq_true, beq_iff_eq] at h
      obtain ⟨⟨⟨h1, h2⟩, h3⟩, h4⟩ := h
      rw [h1, eq_of_sameCodes es es' h2, eq_of_sameSteps s s' h3, h4]
    | _ => cases h
  | .localFunction v p, other, h => by
    cases other with
    | localFunction v' p' =>
      simp only [Step.same, Bool.and_eq_true, beq_iff_eq] at h
      obtain ⟨h1, h2⟩ := h
      rw [h1, Proto.eq_of_same p p' h2]
    | _ => cases h
  | .ret es l, other, h => by
    cases other with
    | ret es' l' =>
      simp only [Step.same, Bool.and_eq_true, beq_iff_eq] at h
      obtain ⟨h1, h2⟩ := h
      rw [eq_of_sameCodes es es' h1, h2]
    | _ => cases h
  | .tailCall e, other, h => by
    cases other with
    | tailCall e' =>
      simp only [Step.same] at h
      rw [Code.eq_of_same e e' h]
    | _ => cases h
  | .leave, other, h => by
    cases other with
    | leave =>
      rfl
    | _ => cases h
  | .goto l, other, h => by
    cases other with
    | goto l' =>
      simp only [Step.same, decide_eq_true_eq] at h
      rw [h]
    | _ => cases h
  | .label l, other, h => by
    cases other with
    | label l' =>
      simp only [Step.same, decide_eq_true_eq] at h
      rw [h]
    | _ => cases h

theorem eq_of_sameSteps : (xs ys : List Step) → sameSteps xs ys = true → xs = ys
  | [], ys, h => by
    cases ys with
    | nil => rfl
    | cons y ys => cases h
  | x :: xs, ys, h => by
    cases ys with
    | nil => cases h
    | cons y ys =>
      simp only [sameSteps, Bool.and_eq_true] at h
      rw [Step.eq_of_same x y h.1, eq_of_sameSteps xs ys h.2]

end

end VaultConsole.Lua
