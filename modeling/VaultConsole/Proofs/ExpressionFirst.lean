import VaultConsole.Lua.Session
import VaultConsole.Proofs.Grammar
import VaultConsole.Proofs.Lexer

/-!
# Expressions before statements

A line is compiled behind the word `return` before it is compiled as it stands. That changes nothing but the
values that are shown, since both can only be done with a line that is empty or that is one call:
`Overlap` is what a line then is, and `compile_expressionFirst` says so of every line, with what happens to the
others.
-/

namespace VaultConsole.Lua

namespace Parser

variable {s s' : State} {fuel level : Nat}

/-! ## Where a statement and an expression begin alike -/

/-- What is read at a place as a statement and as an expression begins with a primary expression. -/
theorem startsPrimary_of_reads {fuel' level' limit : Nat} {body : Block} {e : Expr} {s'' : State}
    (statement : Reads (parseStatement fuel level) s body s')
    (expression : Reads (parseOperators fuel' level' limit) s e s'') : startsPrimary s.token = true := by
  obtain primary | function := startsPrimary_or_function (startsStatement_of_statement statement)
    (startsExpression_of_operators expression)
  · exact primary
  · -- A function has a name as a statement and none as an expression.
    have named : ∃ s1 name, Reads advance s () s1 ∧ s1.token = .name name := by
      obtain ⟨here, _⟩ | ⟨_, named⟩ | compound | ⟨_, _, _, suffixed, _⟩ := reads_statement statement
      · exact absurd (function.symm.trans here) nofun
      · exact named
      · exact absurd (function ▸ compound) nofun
      · exact absurd (function ▸ startsPrimary_of_suffixed suffixed) nofun
    have unnamed : ∃ s1, Reads advance s () s1 ∧ s1.token = .mark .openParen := by
      obtain operator | ⟨_, _, _, simple, _⟩ := reads_operators expression
      · exact absurd (function ▸ operator) nofun
      · obtain literal | ⟨_, unnamed⟩ | ⟨_, suffixed⟩ := reads_simple simple
        · exact absurd (function ▸ literal) nofun
        · exact unnamed
        · exact absurd (function ▸ startsPrimary_of_suffixed suffixed) nofun
    obtain ⟨s1, name, moved, here⟩ := named
    obtain ⟨s1', moved', here'⟩ := unnamed
    obtain ⟨_, rfl⟩ := moved.unique moved'
    exact absurd (here.symm.trans here') nofun

/-- The primary expression at a place does not depend on the room that there is. -/
theorem suffixed_unique {fuel' level' : Nat} {e e' : Expr} {s'' : State}
    (h : Reads (parseSuffixed fuel level) s e s') (h' : Reads (parseSuffixed fuel' level') s e' s'') :
    e = e' ∧ s' = s'' := by
  have room : Covers fuel level (max fuel fuel') (min level level') :=
    .of_le (Nat.le_max_left ..) (Nat.min_le_left ..)
  have room' : Covers fuel' level' (max fuel fuel') (min level level') :=
    .of_le (Nat.le_max_right ..) (Nat.min_le_right ..)
  exact (room.suffixed.agree h).unique (room'.suffixed.agree h')

/-- Where targets stand, expressions with commas between go up to the sign of assignment. -/
theorem assign_of_assignment {fuel' level' : Nat} {target : Expr} {targets es : List Expr} {stat : Stat}
    {s1 s2 : State} (assignment : Reads (parseAssignment fuel level target targets) s stat s')
    (comma : s.token = .mark .comma) (moved : Reads advance s () s1)
    (exprs : Reads (parseExprs fuel' level') s1 es s2) : s2.token = .mark .assign := by
  induction fuel generalizing level target targets s s1 fuel' es with
  | zero =>
    rw [parseAssignment] at assignment
    exact absurd assignment (not_reads_fail _)
  | succ fuel ih =>
    obtain here | ⟨_, _, t1, next, t2, same, moved', suffixed, assignment⟩ := reads_assignment assignment
    · exact absurd (comma.symm.trans here) (by decide)
    · cases same
      obtain ⟨_, rfl⟩ := moved.unique moved'
      obtain ⟨fuel', e, t3, operators, rest⟩ := reads_exprs exprs
      obtain ⟨_, left, t2', suffixed', tail⟩ :=
        reads_operators_of_startsPrimary (startsPrimary_of_suffixed suffixed) operators
      obtain ⟨rfl, rfl⟩ := suffixed_unique suffixed suffixed'
      have behind : t2.token = .mark .assign ∨ t2.token = .mark .comma :=
        (reads_assignment assignment).imp_right And.left
      obtain operator | ⟨_, rfl, rfl⟩ := tail
      · exact absurd operator (not_binaryOp_of_assigns behind)
      · obtain ⟨here, t4, more, moved, exprs⟩ | ⟨other, _, rfl⟩ := rest
        · exact ih assignment here moved exprs
        · exact behind.resolve_right other

/-! ## The end of a source -/

/-- Only the end of the source is left, perhaps behind a semicolon. -/
def State.AtEnd (s : State) : Prop :=
  s.rest.map (·.token) = [.eof] ∨ s.rest.map (·.token) = [.mark .semicolon, .eof]

/-- The end of a source is not followed by anything. -/
def State.Tidy (s : State) : Prop := ∀ l ∈ s.rest.dropLast, l.token ≠ .eof

theorem State.Tidy.of_suffix (tidy : s.Tidy) (suffix : s'.rest <:+ s.rest) : s'.Tidy := by
  obtain ⟨front, rest⟩ := suffix
  intro l found
  refine tidy l ?_
  rw [← rest]
  by_cases empty : s'.rest = []
  · simp [empty] at found
  · rw [List.dropLast_append_of_ne_nil empty]
    exact List.mem_append_right _ found

theorem State.Tidy.rest_eq (tidy : s.Tidy) (ends : s.token = .eof) :
    ∃ l, l.token = .eof ∧ s.rest = [l] := by
  unfold State.token State.head at ends
  cases rest : s.rest with
  | nil =>
    rw [rest] at ends
    exact absurd ends nofun
  | cons l r =>
    rw [rest] at ends
    cases r with
    | nil => exact ⟨l, ends, rfl⟩
    | cons l' r => exact absurd ends (tidy l (by simp [rest]))

theorem token_of_map {t : Token} {ts : List Token} (same : s.rest.map (·.token) = t :: ts) : s.token = t := by
  obtain ⟨l, r, rest, rfl, _⟩ := List.map_eq_cons_iff.1 same
  simp [State.token, State.head, rest]

/-- A source that is at its end when a semicolon may have been taken is at its end. -/
theorem atEnd_of_reads {taken : Bool} (tidy : s.Tidy) (h : Reads (accept .semicolon) s taken s')
    (ends : s'.token = .eof) : s.AtEnd := by
  obtain ⟨here, _, moved⟩ | ⟨_, _, rfl⟩ := reads_accept.1 h
  · obtain ⟨l, l', r, rest, rfl⟩ | ⟨l, rest, _, rfl⟩ | ⟨_, rfl⟩ := reads_advance.1 moved
    · have suffix : l' :: r <:+ s.rest := rest ▸ List.suffix_cons l (l' :: r)
      obtain ⟨last, isEof, only⟩ := (tidy.of_suffix suffix).rest_eq ends
      obtain ⟨rfl, rfl⟩ := List.cons.inj only
      have isSemicolon : l.token = .mark .semicolon := by
        unfold State.token State.head at here
        rwa [rest] at here
      exact .inr (by simp [rest, isSemicolon, isEof])
    · exact absurd (here.symm.trans ends) nofun
    · exact absurd (here.symm.trans ends) nofun
  · obtain ⟨last, isEof, only⟩ := tidy.rest_eq ends
    exact .inl (by simp [only, isEof])

/-- No statement stands where a block ends. -/
theorem nil_of_endsBlock {body : Block} (ends : endsBlock true s.token = true)
    (h : Reads (parseBlock fuel level) s body s') : body = [] := by
  obtain ⟨_, rfl⟩ | ⟨returns, _⟩ | ⟨_, _, _, _, statement, _⟩ := reads_block h
  · rfl
  · exact absurd (returns ▸ ends) nofun
  · exact absurd ends (not_endsBlock_of_startsStatement (startsStatement_of_statement statement))

theorem nil_of_atEnd {body : Block} (ended : s.AtEnd) (h : Reads (parseBlock fuel level) s body s') :
    body = [] := by
  obtain same | same := ended
  · exact nil_of_endsBlock (token_of_map same ▸ rfl) h
  · have here := token_of_map same
    obtain ⟨_, rfl⟩ | ⟨returns, _⟩ | ⟨_, first, s1, more, statement, block, rfl⟩ := reads_block h
    · rfl
    · exact absurd (here.symm.trans returns) nofun
    · obtain ⟨_, rfl, moved⟩ | ⟨function, _⟩ | compound | ⟨_, _, _, suffixed, _⟩ :=
        reads_statement statement
      · have behind : s1.rest.map (·.token) = [.eof] := by
          obtain ⟨l, l', r, rest, rfl⟩ | ⟨l, rest, _⟩ | ⟨rest, _⟩ := reads_advance.1 moved
          · rw [rest] at same
            exact (List.cons.inj same).2
          · simp [rest] at same
          · simp [rest] at same
        exact nil_of_endsBlock (token_of_map behind ▸ rfl) block
      · exact absurd (here.symm.trans function) nofun
      · exact absurd (here ▸ compound) nofun
      · exact absurd (here ▸ startsPrimary_of_suffixed suffixed) nofun

/-! ## What is both -/

/-- What the blocks of a source are that can be read as it stands and behind the word `return` on a line:
nothing, or one call and nothing else, with no more than a semicolon behind it. -/
inductive Overlap (s : State) (line : Nat) : Block → Block → Prop
  | nothing (ended : s.AtEnd) : Overlap s line [] [.ret [] line]
  | call {e : Expr} {fuel level : Nat} {s' : State} (isCall : e.isCall = true)
      (reads : Reads (parseSuffixed fuel level) s e s') (ended : s'.AtEnd) :
    Overlap s line [.call e] [.ret [e] line]

/-- A statement at the place of the expressions behind `return` is one call. -/
theorem overlap_of_exprs {fuel' level' fuel'' level'' line : Nat} {first more : Block} {es : List Expr}
    {s1 s2 s3 : State} {taken : Bool} (tidy : s.Tidy)
    (statement : Reads (parseStatement fuel level) s first s1)
    (block : Reads (parseBlock fuel' level') s1 more s')
    (exprs : Reads (parseExprs fuel'' level'') s es s2) (closed : Reads (accept .semicolon) s2 taken s3)
    (ends : s3.token = .eof) : Overlap s line (first ++ more) [.ret (settleLast s2.lastLine es) line] := by
  obtain ⟨_, e, t, operators, rest⟩ := reads_exprs exprs
  have primary := startsPrimary_of_reads statement operators
  obtain ⟨_, callee, t1, suffixed, tail⟩ := reads_operators_of_startsPrimary primary operators
  have forward : t1.rest <:+ s.rest := (Covers.of_le (Nat.le_refl _) (Nat.le_refl _)).suffixed.forward suffixed
  obtain ⟨semicolon, _⟩ | ⟨function, _⟩ | compound | ⟨_, e', t', suffixed', goes⟩ :=
    reads_statement statement
  · exact absurd (semicolon ▸ primary) nofun
  · exact absurd (function ▸ primary) nofun
  · exact absurd compound (not_startsCompound_of_startsPrimary primary)
  obtain ⟨rfl, rfl⟩ := suffixed_unique suffixed suffixed'
  obtain ⟨assigns, stat, assignment, rfl⟩ | ⟨noAssign, noComma, isCall, rfl, rfl⟩ := goes
  · -- The expressions stop at the sign of assignment, where the source is not at its end.
    have stopped : s2.token = .mark .assign := by
      obtain operator | ⟨_, rfl, rfl⟩ := tail
      · exact absurd operator (not_binaryOp_of_assigns assigns)
      · obtain ⟨comma, t1, es, moved, exprs⟩ | ⟨other, _, rfl⟩ := rest
        · exact assign_of_assignment assignment comma moved exprs
        · exact assigns.resolve_right other
    obtain ⟨semicolon, _⟩ | ⟨_, _, rfl⟩ := reads_accept.1 closed
    · exact absurd (stopped.symm.trans semicolon) nofun
    · exact absurd (stopped.symm.trans ends) nofun
  · obtain operator | ⟨_, rfl, rfl⟩ := tail
    · exact absurd (startsBlock_of_block block) (not_startsBlock_of_binaryOp operator)
    · obtain ⟨comma, _⟩ | ⟨_, rfl, rfl⟩ := rest
      · exact absurd comma noComma
      · have ended : s2.AtEnd := atEnd_of_reads (tidy.of_suffix forward) closed ends
        obtain rfl := nil_of_atEnd ended block
        have settled : settleLast s2.lastLine [e] = [e] := by
          cases e <;> first | rfl | exact absurd isCall nofun
        rw [settled]
        exact .call isCall suffixed ended

/-- Behind the word `return` stands nothing, or expressions, up to the end of the source. -/
theorem reads_chunk_return {body : Block} {l : Lexeme} (isReturn : l.token = .mark .return)
    (line : l.line = s.lastLine) (filled : s.rest ≠ [])
    (h : Reads (parseChunk fuel level) { s with rest := l :: s.rest } body s') :
    ∃ s1 s2 taken, Reads (accept .semicolon) s1 taken s2 ∧ s2.token = .eof ∧
      (((endsBlock true s.token = true ∨ s.token = .mark .semicolon) ∧ s1 = s ∧
          body = [.ret [] l.line]) ∨
        ∃ fuel' es, Reads (parseExprs fuel' (level + 1)) s es s1 ∧
          body = [.ret (settleLast s1.lastLine es) l.line]) := by
  obtain ⟨s2, block, ends⟩ := reads_chunk h
  have here : State.token { s with rest := l :: s.rest } = .mark .return := isReturn
  obtain ⟨ends, _⟩ | ⟨_, _, stat, returned, rfl⟩ | ⟨_, _, _, _, statement, _⟩ := reads_block block
  · exact absurd (here ▸ ends) nofun
  · obtain ⟨s0, s1, taken, moved, closed, found⟩ := reads_return returned
    -- One token is passed, the word itself, so what is left is what stood behind it.
    have start : s0 = s := by
      obtain ⟨l1, l2, r, rest, rfl⟩ | ⟨l1, rest, _⟩ | ⟨rest, _⟩ := reads_advance.1 moved
      · obtain ⟨rfl, behind⟩ := List.cons.inj rest
        rw [← behind, line]
      · exact absurd (List.cons.inj rest).2 filled
      · exact absurd rest nofun
    subst start
    refine ⟨s1, s2, taken, closed, ends, ?_⟩
    obtain ⟨nothing, rfl, rfl⟩ | ⟨fuel', es, exprs, rfl⟩ := found
    · exact .inl ⟨nothing, rfl, rfl⟩
    · exact .inr ⟨fuel', es, exprs, rfl⟩
  · exact absurd (here ▸ startsStatement_of_statement statement) nofun

/-- What can be read as it stands and behind the word `return` is empty or a call. -/
theorem overlap_of_reads {fuel' level' : Nat} {statements expressions : Block} {l : Lexeme} {s1 s2 : State}
    (tidy : s.Tidy) (isReturn : l.token = .mark .return) (line : l.line = s.lastLine)
    (asStatements : Reads (parseChunk fuel level) s statements s1)
    (asExpressions : Reads (parseChunk fuel' level') { s with rest := l :: s.rest } expressions s2) :
    Overlap s l.line statements expressions := by
  obtain ⟨_, block, _⟩ := reads_chunk asStatements
  have starts := startsBlock_of_block block
  have filled : s.rest ≠ [] := by
    intro spent
    unfold State.token State.head at starts
    rw [spent] at starts
    exact absurd starts nofun
  obtain ⟨t1, t2, taken, closed, ends, ⟨_, rfl, rfl⟩ | ⟨_, es, exprs, rfl⟩⟩ :=
    reads_chunk_return isReturn line filled asExpressions
  · have ended := atEnd_of_reads tidy closed ends
    obtain rfl := nil_of_atEnd ended block
    exact .nothing ended
  · obtain ⟨_, _, _, operators, _⟩ := reads_exprs exprs
    have goes := startsStatement_of_startsExpression (startsExpression_of_operators operators) starts
    obtain ⟨ends, _⟩ | ⟨returns, _⟩ | ⟨_, _, _, _, statement, going, rfl⟩ := reads_block block
    · exact absurd ends (not_endsBlock_of_startsStatement goes)
    · exact absurd (returns ▸ goes) nofun
    · exact overlap_of_exprs tidy statement going exprs closed ends

end Parser

namespace Parser

/-- The state in which a source is parsed. -/
def State.ofSource (source : List UInt8) : State :=
  ⟨(Lexemes.ofSource source).lexemes.toList, (Lexemes.ofSource source).fault?, 1,
    [⟨[], [⟨0, false, [], []⟩], true, 0⟩]⟩

theorem State.tidy_ofSource (source : List UInt8) : (State.ofSource source).Tidy :=
  fun _ found => Lexemes.ne_eof_of_mem_dropLast found

/-- The word `return` adds its token to what is left at the start, and nothing else. -/
theorem State.ofSource_return (source : List UInt8) :
    State.ofSource (utf8 "return " ++ source) =
      { State.ofSource source with rest := Lexemes.returnLexeme :: (State.ofSource source).rest } := by
  simp [State.ofSource, Lexemes.ofSource_return]

theorem reads_of_ofSource {level : Nat} {source : List UInt8} {body : Block}
    (h : Block.ofSource level source = .ok body) :
    ∃ fuel s', Reads (parseChunk fuel level) (.ofSource source) body s' := by
  unfold Block.ofSource at h
  dsimp only at h
  split at h
  · cases h
  · split at h
    · rename_i body' s' read
      cases h
      exact ⟨_, s', read⟩
    · cases h

end Parser

/-- The blocks of a source as it stands and behind the word `return`. -/
theorem Block.overlap_ofSource {level level' : Nat} {source : List UInt8} {statements expressions : Block}
    (asStatements : Block.ofSource level source = .ok statements)
    (asExpressions : Block.ofSource level' (utf8 "return " ++ source) = .ok expressions) :
    Parser.Overlap (.ofSource source) 1 statements expressions := by
  obtain ⟨_, _, statements⟩ := Parser.reads_of_ofSource asStatements
  obtain ⟨_, _, expressions⟩ := Parser.reads_of_ofSource asExpressions
  rw [Parser.State.ofSource_return] at expressions
  exact Parser.overlap_of_reads (Parser.State.tidy_ofSource source) rfl rfl statements expressions

namespace Session

/-- The function of a source that is not written out is that of its block. -/
theorem compileAs_eq_ok {dumped : Array Proto} {name source : String} {p : Proto}
    (text : (utf8 source).head? ≠ some 0x1B) (h : compileAs dumped name source = .ok p) :
    ∃ body, Block.ofSource 0 (utf8 source) = .ok body ∧
      p = Proto.ofBlock (Chunk.display name.toUTF8) body := by
  have isText : ¬ (source.toUTF8.size > 0 && source.toUTF8.get! 0 == 0x1B) = true := by
    intro escape
    simp only [Bool.and_eq_true, decide_eq_true_eq, beq_iff_eq] at escape
    obtain ⟨head, first⟩ := escape
    exact text (first ▸ Text.head?_toList head)
  have mode : "bt".toUTF8.toList.contains 116 = true := by decide +kernel
  unfold compileAs Chunk.load at h
  rw [if_neg isText, if_pos mode] at h
  unfold Chunk.compile at h
  dsimp only at h
  -- A source that is no dumped function goes to the parser, whose block is all that the function depends on.
  change ∃ body, Block.ofSource 0 source.toUTF8.toList = _ ∧ _
  cases read : Block.ofSource 0 source.toUTF8.toList with
  | ok body =>
    rw [read] at h
    refine ⟨body, rfl, ?_⟩
    split at h
    · cases h
    · exact (Except.ok.inj h).symm
  | error fault =>
    rw [read] at h
    split at h <;> cases h

/-- Behind the word `return` stands no function that is written out. -/
theorem head?_ne_escape {level : Nat} {source : List UInt8} {body : Block}
    (h : Block.ofSource level (utf8 "return " ++ source) = .ok body) : source.head? ≠ some 0x1B := by
  intro escape
  obtain ⟨rest, rfl⟩ := List.head?_eq_some_iff.1 escape
  obtain ⟨more, tokens⟩ := Lexemes.ofSource_escape rest
  have left : (Parser.State.ofSource (0x1B :: rest)).rest = ⟨.stray 0x1B, 1, []⟩ :: more := tokens
  have here : (Parser.State.ofSource (0x1B :: rest)).token = .stray 0x1B := by
    unfold Parser.State.token Parser.State.head
    rw [left]
    rfl
  obtain ⟨_, _, expressions⟩ := Parser.reads_of_ofSource h
  rw [Parser.State.ofSource_return] at expressions
  obtain ⟨_, _, _, _, _, ⟨ends | semicolon, _⟩ | ⟨_, _, exprs, _⟩⟩ :=
    Parser.reads_chunk_return rfl rfl (by rw [left]; exact nofun) expressions
  · exact absurd (here ▸ ends) nofun
  · exact absurd (here.symm.trans semicolon) nofun
  · obtain ⟨_, _, _, operators, _⟩ := Parser.reads_exprs exprs
    exact absurd (here ▸ Parser.startsExpression_of_operators operators) nofun

/-- Of a line that can be compiled behind the word `return` that function is taken, and otherwise the function
of the line as it stands, or its fault. Where both are functions the line is empty or one call, and the first
function returns nothing, or what the call gives. The word moves no token to another line. -/
theorem compile_expressionFirst (dumped : Array Proto) (name source : String) :
    (∀ p, compileAs dumped name (expressionMark ++ source) = .ok p →
        compile dumped name source = .ok p) ∧
      (∀ e, compileAs dumped name (expressionMark ++ source) = .error e →
        compile dumped name source = compileAs dumped name source) ∧
      (∀ p q, compileAs dumped name (expressionMark ++ source) = .ok p →
        compileAs dumped name source = .ok q →
        ∃ statements expressions, Parser.Overlap (.ofSource (utf8 source)) 1 statements expressions ∧
          q = Proto.ofBlock (Chunk.display name.toUTF8) statements ∧
          p = Proto.ofBlock (Chunk.display name.toUTF8) expressions) ∧
      Lexemes.ofSource (utf8 (expressionMark ++ source)) =
        ⟨#[Lexemes.returnLexeme] ++ (Lexemes.ofSource (utf8 source)).lexemes,
          (Lexemes.ofSource (utf8 source)).fault?⟩ := by
  have bytes : utf8 (expressionMark ++ source) = utf8 "return " ++ utf8 source := utf8_append _ _
  refine ⟨fun p asExpressions => ?_, fun e asExpressions => ?_, fun p q asExpressions asStatements => ?_, ?_⟩
  · rw [compile, asExpressions]
  · rw [compile, asExpressions]
  · have isText : (utf8 (expressionMark ++ source)).head? ≠ some 0x1B := by
      rw [bytes, Lexemes.utf8_return]
      exact nofun
    obtain ⟨expressions, read, rfl⟩ := compileAs_eq_ok isText asExpressions
    rw [bytes] at read
    obtain ⟨statements, read', rfl⟩ := compileAs_eq_ok (head?_ne_escape read) asStatements
    exact ⟨statements, expressions, Block.overlap_ofSource read' read, rfl, rfl⟩
  · rw [bytes]
    exact Lexemes.ofSource_return _

example : (compileAs #[] "=line" "return f()").isOk = true ∧ (compileAs #[] "=line" "f()").isOk = true := by
  decide +kernel

end Session

end VaultConsole.Lua
