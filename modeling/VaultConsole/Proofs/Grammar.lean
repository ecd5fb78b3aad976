import VaultConsole.Proofs.Parsing

/-!
# What the grammar reads

For each nonterminal that a line can begin with: with which token it begins, and what has been read where it
was. The results say all that a statement and an expression have to be told apart by, so that nothing after
them looks into a parser again.
-/

namespace VaultConsole.Lua.Parser

variable {s s' : State} {fuel level : Nat}

/-- Something is read with fuel only. -/
theorem succ_of_reads {α : Type} {p : Parse α} {a : α} {message : String} (h : Reads p s a s')
    (out : fuel = 0 → p = fail message) : ∃ n, fuel = n + 1 :=
  Nat.exists_eq_add_one_of_ne_zero fun zero => not_reads_fail message (out zero ▸ h)

/-! ## Tokens at the beginning -/

/-- Whether a primary expression can begin with a token. -/
def startsPrimary : Token → Bool
  | .name _ | .mark .openParen => true
  | _ => false

/-- Whether an operand that is no primary expression can begin with a token, a function aside. -/
def startsLiteral : Token → Bool
  | .number _ | .string _ | .mark .nil | .mark .true | .mark .false | .mark .dots | .mark .openBrace => true
  | _ => false

/-- Whether a token is the first one of a statement that it tells, an empty statement and a function aside. -/
def startsCompound : Token → Bool
  | .mark .if | .mark .while | .mark .do | .mark .for | .mark .repeat | .mark .local | .mark .doubleColon
  | .mark .break | .mark .goto => true
  | _ => false

/-- Whether an expression can begin with a token. -/
def startsExpression (t : Token) : Bool :=
  (unaryOp? t).isSome || startsLiteral t || t == .mark .function || startsPrimary t

/-- Whether a statement can begin with a token. -/
def startsStatement (t : Token) : Bool :=
  t == .mark .semicolon || t == .mark .function || startsCompound t || startsPrimary t

/-- Whether a block can begin with a token, or be empty before it. -/
def startsBlock (t : Token) : Bool := endsBlock true t || t == .mark .return || startsStatement t

/-- What can begin a statement and an expression begins a primary expression, but for the word of functions. -/
theorem startsPrimary_or_function {t : Token} (statement : startsStatement t = true)
    (expression : startsExpression t = true) : startsPrimary t = true ∨ t = .mark .function := by
  revert statement expression
  cases t with
  | mark m => cases m <;> decide
  | _ => simp [startsStatement, startsCompound, startsPrimary]

/-- An expression stands neither at the end of a block nor before `return`. -/
theorem startsStatement_of_startsExpression {t : Token} (expression : startsExpression t = true)
    (block : startsBlock t = true) : startsStatement t = true := by
  revert expression block
  cases t with
  | mark m => cases m <;> decide
  | _ => simp [startsBlock, startsExpression, endsBlock, unaryOp?, startsLiteral, startsPrimary]

/-- A block that goes on is not at its end. -/
theorem not_endsBlock_of_startsStatement {t : Token} (starts : startsStatement t = true) :
    ¬ endsBlock true t = true := by
  revert starts
  cases t with
  | mark m => cases m <;> decide
  | _ => simp [endsBlock, startsStatement, startsCompound, startsPrimary]

theorem not_startsCompound_of_startsPrimary {t : Token} (primary : startsPrimary t = true) :
    ¬ startsCompound t = true := by
  revert primary
  cases t with
  | mark m => cases m <;> decide
  | _ => simp [startsPrimary, startsCompound]

/-- No block begins with an operator that has a left operand. -/
theorem not_startsBlock_of_binaryOp {t : Token} (operator : (binaryOp? t).isSome = true) :
    ¬ startsBlock t = true := by
  revert operator
  cases t with
  | mark m => cases m <;> decide
  | _ => simp [binaryOp?]

/-- What follows a target is no operator. -/
theorem not_binaryOp_of_assigns {t : Token} (assigns : t = .mark .assign ∨ t = .mark .comma) :
    ¬ (binaryOp? t).isSome = true := by
  obtain rfl | rfl := assigns <;> decide

/-! ## Expressions -/

theorem startsPrimary_of_primary {e : Expr} (h : Reads (parsePrimary fuel level) s e s') :
    startsPrimary s.token = true := by
  obtain ⟨fuel, rfl⟩ := succ_of_reads h fun out => out ▸ parsePrimary.eq_1 ..
  rw [parsePrimary] at h
  simp only [reads_bind, reads_current] at h
  obtain ⟨_, _, ⟨rfl, rfl⟩, h⟩ := h
  rw [State.head_token] at h
  split at h
  · simp [startsPrimary, *]
  · simp [startsPrimary, *]
  · exact absurd h (not_reads_fail _)

theorem startsPrimary_of_suffixed {e : Expr} (h : Reads (parseSuffixed fuel level) s e s') :
    startsPrimary s.token = true := by
  obtain ⟨fuel, rfl⟩ := succ_of_reads h fun out => out ▸ parseSuffixed.eq_1 ..
  rw [parseSuffixed] at h
  obtain ⟨_, _, primary, _⟩ := reads_bind.1 h
  exact startsPrimary_of_primary primary

/-- The parameters of a function come first. -/
theorem reads_body {isMethod : Bool} {l : Nat} {f : FunctionBody}
    (h : Reads (parseBody fuel level isMethod l) s f s') : s.token = .mark .openParen := by
  obtain ⟨fuel, rfl⟩ := succ_of_reads h fun out => out ▸ parseBody.eq_1 ..
  rw [parseBody] at h
  simp only [reads_bind, reads_expect] at h
  obtain ⟨_, _, entered, _, _, ⟨here, _⟩, _⟩ := h
  cases entered
  exact here

/-- An operand is a literal, a function without a name, or a primary expression with accesses and calls. -/
theorem reads_simple {e : Expr} (h : Reads (parseSimple fuel level) s e s') :
    startsLiteral s.token = true ∨
      (s.token = .mark .function ∧ ∃ s1, Reads advance s () s1 ∧ s1.token = .mark .openParen) ∨
      ∃ fuel', Reads (parseSuffixed fuel' level) s e s' := by
  obtain ⟨fuel, rfl⟩ := succ_of_reads h fun out => out ▸ parseSimple.eq_1 ..
  rw [parseSimple] at h
  simp only [reads_bind, reads_current] at h
  obtain ⟨_, _, ⟨rfl, rfl⟩, h⟩ := h
  rw [State.head_token] at h
  split at h
  case h_8 here =>
    simp only [reads_bind, reads_line] at h
    obtain ⟨_, s1, moved, _, _, ⟨rfl, rfl⟩, _, _, body, _⟩ := h
    exact .inr (.inl ⟨here, s1, moved, reads_body body⟩)
  case h_9 => exact .inr (.inr ⟨fuel, h⟩)
  all_goals exact .inl (by simp [startsLiteral, *])

/-- Behind an operand stands an operator, or the operand is all that is read. -/
theorem reads_operatorTail {left e : Expr} (h : Reads (parseOperatorTail fuel level 0 left) s e s') :
    (binaryOp? s.token).isSome = true ∨ (binaryOp? s.token = none ∧ e = left ∧ s' = s) := by
  obtain ⟨fuel, rfl⟩ := succ_of_reads h fun out => out ▸ parseOperatorTail.eq_1 ..
  rw [parseOperatorTail] at h
  simp only [reads_bind, reads_current] at h
  obtain ⟨_, _, ⟨rfl, rfl⟩, h⟩ := h
  rw [State.head_token] at h
  split at h
  · rename_i op here
    exact .inl (by rw [here]; rfl)
  · rename_i here
    obtain ⟨rfl, rfl⟩ := reads_pure.1 h
    exact .inr ⟨here, rfl, rfl⟩

/-- An expression begins with an operator or an operand. -/
theorem reads_operators {limit : Nat} {e : Expr} (h : Reads (parseOperators fuel level limit) s e s') :
    (unaryOp? s.token).isSome = true ∨
      ∃ fuel' left s1, Reads (parseSimple fuel' (level + 1)) s left s1 ∧
        Reads (parseOperatorTail fuel' (level + 1) limit left) s1 e s' := by
  obtain ⟨fuel, rfl⟩ := succ_of_reads h fun out => out ▸ parseOperators.eq_1 ..
  rw [parseOperators] at h
  simp only [reads_bind, reads_enter, reads_current] at h
  obtain ⟨_, _, ⟨_, rfl, rfl⟩, _, _, ⟨rfl, rfl⟩, h⟩ := h
  rw [State.head_token] at h
  split at h
  · exact .inl (by simp [*])
  · obtain ⟨left, s1, simple, tail⟩ := reads_bind.1 h
    exact .inr ⟨fuel, left, s1, simple, tail⟩

theorem startsExpression_of_operators {limit : Nat} {e : Expr}
    (h : Reads (parseOperators fuel level limit) s e s') : startsExpression s.token = true := by
  unfold startsExpression
  obtain operator | ⟨_, _, _, simple, _⟩ := reads_operators h
  · simp [operator]
  · obtain literal | ⟨function, _⟩ | ⟨_, suffixed⟩ := reads_simple simple
    · simp [literal]
    · simp [function]
    · simp [startsPrimary_of_suffixed suffixed]

/-- An expression that begins like a primary expression is one with accesses and calls, or an operator
follows. -/
theorem reads_operators_of_startsPrimary {e : Expr} (primary : startsPrimary s.token = true)
    (h : Reads (parseOperators fuel level 0) s e s') :
    ∃ fuel' left s1, Reads (parseSuffixed fuel' (level + 1)) s left s1 ∧
      ((binaryOp? s1.token).isSome = true ∨ (binaryOp? s1.token = none ∧ e = left ∧ s' = s1)) := by
  have other : (unaryOp? s.token).isSome = false ∧ startsLiteral s.token = false ∧
      s.token ≠ .mark .function := by
    revert primary
    cases s.token with
    | mark m => cases m <;> decide
    | _ => simp [startsPrimary, unaryOp?, startsLiteral]
  obtain ⟨noOperator, noLiteral, noFunction⟩ := other
  obtain operator | ⟨_, left, s1, simple, tail⟩ := reads_operators h
  · exact absurd operator (by simp [noOperator])
  · obtain literal | ⟨function, _⟩ | ⟨fuel', suffixed⟩ := reads_simple simple
    · exact absurd literal (by simp [noLiteral])
    · exact absurd function noFunction
    · exact ⟨fuel', left, s1, suffixed, reads_operatorTail tail⟩

/-- Expressions go on after a comma. -/
theorem reads_exprs {es : List Expr} (h : Reads (parseExprs fuel level) s es s') :
    ∃ fuel' e s1, Reads (parseOperators fuel' level 0) s e s1 ∧
      ((s1.token = .mark .comma ∧
          ∃ s2 more, Reads advance s1 () s2 ∧ Reads (parseExprs fuel' level) s2 more s') ∨
        (s1.token ≠ .mark .comma ∧ es = [e] ∧ s' = s1)) := by
  obtain ⟨fuel, rfl⟩ := succ_of_reads h fun out => out ▸ parseExprs.eq_1 ..
  rw [parseExprs] at h
  obtain ⟨e, s1, operators, h⟩ := reads_bind.1 h
  refine ⟨fuel, e, s1, operators, ?_⟩
  obtain ⟨here, s2, moved, h⟩ | ⟨other, h⟩ := reads_accept_ite.1 h
  · simp only [reads_bind, reads_lastLine, reads_pure] at h
    obtain ⟨_, _, ⟨rfl, rfl⟩, more, _, exprs, _, rfl⟩ := h
    exact .inl ⟨here, s2, more, moved, exprs⟩
  · obtain ⟨rfl, rfl⟩ := reads_pure.1 h
    exact .inr ⟨other, rfl, rfl⟩

/-! ## Statements -/

theorem reads_checkAssignable {e : Expr} {u : Unit} (h : Reads (checkAssignable e) s u s') : s = s' := by
  unfold checkAssignable at h
  split at h
  · obtain ⟨_, _, here, h⟩ := reads_bind.1 h
    obtain ⟨rfl, rfl⟩ := reads_get.1 here
    split at h
    · exact absurd h (not_reads_failWith _ _)
    · exact absurd h (not_reads_failWith _ _)
    · exact (reads_pure.1 h).2
  · exact (reads_pure.1 h).2

/-- A target has a comma and another target behind it, or the sign of assignment. -/
theorem reads_assignment {target : Expr} {targets : List Expr} {stat : Stat}
    (h : Reads (parseAssignment fuel level target targets) s stat s') :
    s.token = .mark .assign ∨
      (s.token = .mark .comma ∧ ∃ fuel' s1 next s2, fuel = fuel' + 1 ∧ Reads advance s () s1 ∧
        Reads (parseSuffixed fuel' level) s1 next s2 ∧
        Reads (parseAssignment fuel' (level + 1) next (target :: targets)) s2 stat s') := by
  obtain ⟨fuel, rfl⟩ := succ_of_reads h fun out => out ▸ parseAssignment.eq_1 ..
  rw [parseAssignment] at h
  obtain ⟨_, h⟩ | ⟨_, h⟩ := reads_ite.1 h
  · simp at h
  · obtain ⟨_, s1, checked, h⟩ := reads_bind.1 h
    obtain rfl := reads_checkAssignable checked
    obtain ⟨here, s1, moved, h⟩ | ⟨_, h⟩ := reads_accept_ite.1 h
    · simp only [reads_bind, reads_enter] at h
      obtain ⟨next, s2, suffixed, _, _, ⟨_, rfl, rfl⟩, assignment⟩ := h
      exact .inr ⟨here, fuel, s1, next, s2, rfl, moved, suffixed, assignment⟩
    · obtain ⟨_, _, expected, _⟩ := reads_bind.1 h
      exact .inl (reads_expect.1 expected).1

/-- A statement is empty, or a function with a name, or told by its first word, or an assignment or a call. -/
theorem reads_statement {body : Block} (h : Reads (parseStatement fuel level) s body s') :
    (s.token = .mark .semicolon ∧ body = [] ∧ Reads advance s () s') ∨
      (s.token = .mark .function ∧ ∃ s1 name, Reads advance s () s1 ∧ s1.token = .name name) ∨
      startsCompound s.token = true ∨
      ∃ fuel' e s1, Reads (parseSuffixed fuel' (level + 1)) s e s1 ∧
        (((s1.token = .mark .assign ∨ s1.token = .mark .comma) ∧
            ∃ stat, Reads (parseAssignment fuel' (level + 1) e []) s1 stat s' ∧ body = [stat]) ∨
          (s1.token ≠ .mark .assign ∧ s1.token ≠ .mark .comma ∧ e.isCall = true ∧
            body = [.call e] ∧ s1 = s')) := by
  obtain ⟨fuel, rfl⟩ := succ_of_reads h fun out => out ▸ parseStatement.eq_1 ..
  rw [parseStatement] at h
  simp only [reads_bind, reads_enter, reads_line, reads_current] at h
  obtain ⟨_, _, ⟨_, rfl, rfl⟩, _, _, ⟨rfl, rfl⟩, _, _, ⟨rfl, rfl⟩, h⟩ := h
  rw [State.head_token] at h
  split at h
  -- What begins with the word of a compound statement is told by that word, whatever follows.
  case h_1 here =>
    simp only [reads_bind, reads_pure] at h
    obtain ⟨_, _, moved, rfl, rfl⟩ := h
    exact .inl ⟨here, rfl, moved⟩
  case h_7 here =>
    simp only [reads_bind, reads_expectName] at h
    obtain ⟨_, s1, moved, name, _, ⟨named, _⟩, _⟩ := h
    exact .inr (.inl ⟨here, s1, name, moved, named⟩)
  case h_12 =>
    simp only [reads_bind, reads_at?] at h
    obtain ⟨e, s1, suffixed, _, _, ⟨rfl, rfl⟩, _, _, ⟨rfl, rfl⟩, h⟩ := h
    refine .inr (.inr (.inr ⟨fuel, e, s1, suffixed, ?_⟩))
    -- Behind a suffixed expression an assignment goes on, or the expression has to be a call.
    obtain ⟨assigns, h⟩ | ⟨other, h⟩ := reads_ite.1 h
    · obtain ⟨stat, _, assignment, h⟩ := reads_bind.1 h
      obtain ⟨rfl, rfl⟩ := reads_pure.1 h
      exact .inl ⟨by simpa using assigns, stat, assignment, rfl⟩
    · obtain ⟨call, h⟩ | ⟨_, h⟩ := reads_ite.1 h
      · obtain ⟨rfl, rfl⟩ := reads_pure.1 h
        simp only [Bool.or_eq_true, beq_iff_eq, not_or] at other
        exact .inr ⟨other.1, other.2, call, rfl, rfl⟩
      · exact absurd h (not_reads_fail _)
  all_goals exact .inr (.inr (.inl (by simp [startsCompound, *])))

theorem startsStatement_of_statement {body : Block} (h : Reads (parseStatement fuel level) s body s') :
    startsStatement s.token = true := by
  unfold startsStatement
  obtain ⟨semicolon, _⟩ | ⟨function, _⟩ | compound | ⟨_, _, _, suffixed, _⟩ := reads_statement h
  · simp [semicolon]
  · simp [function]
  · simp [compound]
  · simp [startsPrimary_of_suffixed suffixed]

/-! ## Blocks -/

/-- A block is at its end, or it returns, or it goes on after a statement. -/
theorem reads_block {body : Block} (h : Reads (parseBlock fuel level) s body s') :
    (endsBlock true s.token = true ∧ body = []) ∨
      (s.token = .mark .return ∧
        ∃ fuel' stat, Reads (parseReturn fuel' (level + 1)) s stat s' ∧ body = [stat]) ∨
      ∃ fuel' first s1 more, Reads (parseStatement fuel' level) s first s1 ∧
        Reads (parseBlock fuel' level) s1 more s' ∧ body = first ++ more := by
  obtain ⟨fuel, rfl⟩ := succ_of_reads h fun out => out ▸ parseBlock.eq_1 ..
  rw [parseBlock] at h
  simp only [reads_bind, reads_current, reads_ite] at h
  obtain ⟨_, _, ⟨rfl, rfl⟩, ⟨ends, h⟩ | ⟨_, ⟨here, h⟩ | ⟨_, h⟩⟩⟩ := h
  · exact .inl ⟨ends, (reads_pure.1 h).1.symm⟩
  · obtain ⟨_, _, entered, stat, _, returned, h⟩ := h
    obtain ⟨_, rfl, rfl⟩ := reads_enter.1 entered
    obtain ⟨rfl, rfl⟩ := reads_pure.1 h
    exact .inr (.inl ⟨by simpa using here, fuel, stat, returned, rfl⟩)
  · obtain ⟨first, s1, statement, more, _, block, h⟩ := h
    obtain ⟨rfl, rfl⟩ := reads_pure.1 h
    exact .inr (.inr ⟨fuel, first, s1, more, statement, block, rfl⟩)

theorem startsBlock_of_block {body : Block} (h : Reads (parseBlock fuel level) s body s') :
    startsBlock s.token = true := by
  unfold startsBlock
  obtain ⟨ends, _⟩ | ⟨returns, _⟩ | ⟨_, _, _, _, statement, _⟩ := reads_block h
  · simp [ends]
  · simp [returns]
  · simp [startsStatement_of_statement statement]

/-- The word `return` has expressions behind it where no block ends, and then perhaps a semicolon. -/
theorem reads_return {stat : Stat} (h : Reads (parseReturn fuel level) s stat s') :
    ∃ s1 s2 taken, Reads advance s () s1 ∧ Reads (accept .semicolon) s2 taken s' ∧
      (((endsBlock true s1.token = true ∨ s1.token = .mark .semicolon) ∧ s1 = s2 ∧
          stat = .ret [] s.head.line) ∨
        ∃ fuel' es, Reads (parseExprs fuel' level) s1 es s2 ∧
          stat = .ret (settleLast s2.lastLine es) s.head.line) := by
  obtain ⟨fuel, rfl⟩ := succ_of_reads h fun out => out ▸ parseReturn.eq_1 ..
  rw [parseReturn] at h
  simp only [reads_bind, reads_line, reads_current, reads_ite] at h
  obtain ⟨_, _, ⟨rfl, rfl⟩, _, s1, moved, _, _, ⟨rfl, rfl⟩, nothing | something⟩ := h
  · obtain ⟨ends, _, _, values, taken, _, closed, h⟩ := nothing
    obtain ⟨rfl, rfl⟩ := reads_pure.1 values
    obtain ⟨rfl, rfl⟩ := reads_pure.1 h
    exact ⟨s1, s1, taken, moved, closed, .inl ⟨by simpa using ends, rfl, rfl⟩⟩
  · obtain ⟨_, es, s2, exprs, _, _, last, _, _, values, taken, _, closed, h⟩ := something
    obtain ⟨rfl, rfl⟩ := reads_lastLine.1 last
    obtain ⟨rfl, rfl⟩ := reads_pure.1 values
    obtain ⟨rfl, rfl⟩ := reads_pure.1 h
    exact ⟨s1, s2, taken, moved, closed, .inr ⟨fuel, es, exprs, rfl⟩⟩

/-- A chunk is a block up to the end of the source. -/
theorem reads_chunk {body : Block} (h : Reads (parseChunk fuel level) s body s') :
    ∃ s1, Reads (parseBlock fuel level) s body s1 ∧ s1.token = .eof := by
  unfold parseChunk at h
  simp only [reads_bind, reads_current, reads_ite, not_reads_fail, false_and, exists_false, and_false,
    false_or] at h
  obtain ⟨body, s1, block, _, _, ⟨rfl, rfl⟩, atEnd, _, _, _, h⟩ := h
  obtain ⟨rfl, rfl⟩ := reads_pure.1 h
  exact ⟨s1, block, by simpa using atEnd⟩

end VaultConsole.Lua.Parser
