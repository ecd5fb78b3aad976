import Mathlib.Data.List.Basic
import VaultConsole.Lua.Lexer

/-!
# Reading tokens

Reading goes on through a source, so that the fuel of each function does not matter as long as it exceeds the
number of bytes that are left. What is read is then told by the source alone: `ofSource_return` says that the
word `return` before a source adds its token on the first line and changes nothing else, and
`ne_eof_of_mem_dropLast` that only the last token is the end of the source.
-/

namespace VaultConsole.Lua

namespace Lexer

/-! ## Long brackets -/

theorem length_afterNewline (b : UInt8) (r : List UInt8) : (afterNewline b r).length ≤ r.length := by
  fun_cases afterNewline b r <;> grind

theorem length_takeEquals (n : Nat) (bs : List UInt8) : (takeEquals n bs).2.length ≤ bs.length := by
  fun_induction takeEquals n bs <;> grind

theorem length_longBracket? {bracket : UInt8} {bs r : List UInt8} {n : Nat}
    (h : longBracket? bracket bs = some (n, r)) : r.length < bs.length := by
  have shorter := length_takeEquals 0 bs
  fun_cases longBracket? bracket bs <;> grind [longBracket?]

/-- What is left after a long bracket is shorter. -/
theorem length_takeLong {level fuel : Nat} {content found : List UInt8} {c c' : Cursor}
    (h : takeLong level fuel content c = some (found, c')) : c'.rest.length < c.rest.length := by
  fun_induction takeLong level fuel content c <;> grind [→ length_longBracket?, length_afterNewline]

theorem takeLong_fuel {level fuel fuel' : Nat} {content : List UInt8} {c : Cursor}
    (enough : c.rest.length < fuel) (enough' : c.rest.length < fuel') :
    takeLong level fuel content c = takeLong level fuel' content c := by
  induction fuel generalizing fuel' content c with
  | zero => exact absurd enough (Nat.not_lt_zero _)
  | succ fuel ih =>
    cases fuel' with
    | zero => exact absurd enough' (Nat.not_lt_zero _)
    | succ fuel' =>
      rw [takeLong, takeLong]
      cases rest : c.rest with
      | nil => rfl
      | cons b r =>
        have shorter := length_afterNewline b r
        grind

theorem length_afterBreak (c : Cursor) : (afterBreak c).rest.length ≤ c.rest.length := by
  fun_cases afterBreak c <;> grind [length_afterNewline]

theorem readLong_fuel (what : String) (level : Nat) {fuel fuel' : Nat} {c : Cursor}
    (enough : c.rest.length < fuel) (enough' : c.rest.length < fuel') :
    readLong what level fuel c = readLong what level fuel' c := by
  have shorter := length_afterBreak c
  rw [readLong, readLong, takeLong_fuel (by omega) (by omega : _ < fuel')]

theorem length_readLong {what : String} {level fuel : Nat} {c c' : Cursor} {content : List UInt8}
    (h : readLong what level fuel c = .ok (content, c')) : c'.rest.length ≤ c.rest.length := by
  have shorter := length_afterBreak c
  fun_cases readLong what level fuel c <;> grind [→ length_takeLong, readLong, fail]

/-! ## Quoted strings -/

theorem length_skipSpace (fuel : Nat) (c : Cursor) : (skipSpace fuel c).rest.length ≤ c.rest.length := by
  fun_induction skipSpace fuel c <;> grind [length_afterNewline]

theorem skipSpace_fuel {fuel fuel' : Nat} {c : Cursor} (enough : c.rest.length ≤ fuel)
    (enough' : c.rest.length ≤ fuel') : skipSpace fuel c = skipSpace fuel' c := by
  induction fuel generalizing fuel' c with
  | zero =>
    have spent : c.rest = [] := List.length_eq_zero_iff.1 (Nat.le_zero.1 enough)
    cases fuel' with
    | zero => rfl
    | succ fuel' => rw [skipSpace, skipSpace, spent]
  | succ fuel ih =>
    cases fuel' with
    | zero =>
      have spent : c.rest = [] := List.length_eq_zero_iff.1 (Nat.le_zero.1 enough')
      rw [skipSpace, skipSpace, spent]
    | succ fuel' =>
      rw [skipSpace, skipSpace]
      cases rest : c.rest with
      | nil => rfl
      | cons b r =>
        have shorter := length_afterNewline b r
        grind

/-- An escape takes bytes, or nothing at the end. -/
theorem length_readEscape {line : Nat} {content bs bytes rest : List UInt8}
    (h : readEscape line content bs = .ok (bytes, rest)) : rest.length ≤ bs.length := by
  revert h
  fun_cases readEscape line content bs
  case case15 r digits some v fits r' closes =>
    intro h
    have same : r' = rest := congrArg Prod.snd (Except.ok.inj h)
    have shorter := congrArg List.length closes
    rw [List.length_drop, List.length_cons, same] at shorter
    simp only [List.length_cons]
    omega
  case case21 =>
    intro h
    obtain rfl := congrArg Prod.snd (Except.ok.inj h)
    rw [List.length_drop]
    exact Nat.sub_le _ _
  all_goals
    intro h
    first
      | cases h; done
      | cases h; simp only [List.length_cons, List.length_nil]; omega

/-- What is left after a quoted string is not longer. -/
theorem length_readString {quote : UInt8} {fuel : Nat} {content spelling : List UInt8} {c c' : Cursor}
    (h : readString quote fuel content c = .ok (spelling, c')) : c'.rest.length ≤ c.rest.length := by
  fun_induction readString quote fuel content c <;>
    grind [fail, length_skipSpace, length_afterNewline, → length_readEscape]

theorem readString_fuel (quote : UInt8) {fuel fuel' : Nat} {content : List UInt8} {c : Cursor}
    (enough : c.rest.length < fuel) (enough' : c.rest.length < fuel') :
    readString quote fuel content c = readString quote fuel' content c := by
  induction fuel generalizing fuel' content c with
  | zero => exact absurd enough (Nat.not_lt_zero _)
  | succ fuel ih =>
    cases fuel' with
    | zero => exact absurd enough' (Nat.not_lt_zero _)
    | succ fuel' =>
      rw [readString, readString]
      cases rest : c.rest with
      | nil => rfl
      | cons b r =>
        rw [rest, List.length_cons] at enough enough'
        simp only
        split
        · rfl
        · split
          · rfl
          · split
            · -- After a backslash: blanks to skip, a line break, or an escape.
              cases r with
              | nil => rfl
              | cons d r =>
                rw [List.length_cons] at enough enough'
                have skipped : skipSpace fuel ⟨r, c.line⟩ = skipSpace fuel' ⟨r, c.line⟩ :=
                  skipSpace_fuel (by simp only; omega) (by simp only; omega)
                have shorter := length_skipSpace fuel' ⟨r, c.line⟩
                have broken := length_afterNewline d r
                split
                · rename_i same
                  cases same
                  rw [skipped]
                  exact ih (by simp only at shorter; omega) (by simp only at shorter; omega)
                · rename_i same
                  cases same
                  split
                  · exact ih (by simp only; omega) (by simp only; omega)
                  · cases escape : readEscape c.line content (d :: r) with
                    | error fault => rfl
                    | ok taken =>
                      have left := length_readEscape escape
                      rw [List.length_cons] at left
                      exact ih (by simp only; omega) (by simp only; omega)
                · rename_i none
                  cases none
            · exact ih (by simp only; omega) (by simp only; omega)

/-! ## Numerals -/

theorem length_takeNumeral (marks : List UInt8) (fuel : Nat) (taken r : List UInt8) :
    (takeNumeral marks fuel taken r).2.length ≤ r.length := by
  fun_induction takeNumeral marks fuel taken r <;> grind

/-- A numeral takes bytes. -/
theorem length_readNumeral {line : Nat} {bs spelling rest : List UInt8} {n : Number} (filled : bs ≠ [])
    (h : readNumeral line bs = .ok (n, spelling, rest)) : rest.length < bs.length := by
  revert h
  fun_cases readNumeral line bs with
  | case1 start marks r first taken r1 digits taken1 r2 letter =>
    intro h
    obtain rfl : r2 = rest := congrArg (·.2.2) (Except.ok.inj h)
    have begun : r.length < bs.length := by grind
    have taking : r1.length ≤ r.length := by
      have shorter := length_takeNumeral marks (r.length + 1) start r
      rwa [digits] at shorter
    have ended : r2.length ≤ r1.length := by grind
    omega
  | case2 => exact nofun

/-! ## Tokens -/

theorem length_mark? {b : UInt8} {r rest : List UInt8} {m : Mark} (h : mark? b r = some (m, rest)) :
    rest.length ≤ r.length := by
  unfold mark? at h
  split at h <;> cases h <;> simp only [List.length_cons, Nat.le_refl] <;> omega

theorem length_dropWhile (p : UInt8 → Bool) (r : List UInt8) : (r.dropWhile p).length ≤ r.length :=
  (List.dropWhile_suffix p).length_le

theorem length_skip {fuel : Nat} {c c' : Cursor} (h : skip fuel c = .ok c') :
    c'.rest.length ≤ c.rest.length := by
  fun_induction skip fuel c <;>
    grind [length_afterNewline, → length_longBracket?, → length_readLong, length_dropWhile]

theorem skip_fuel {fuel fuel' : Nat} {c : Cursor} (enough : c.rest.length < fuel)
    (enough' : c.rest.length < fuel') : skip fuel c = skip fuel' c := by
  -- Each comment and each blank takes bytes, so the fuel never gives out before them.
  induction fuel generalizing fuel' c with
  | zero => exact absurd enough (Nat.not_lt_zero _)
  | succ fuel ih =>
    cases fuel' with
    | zero => exact absurd enough' (Nat.not_lt_zero _)
    | succ fuel' =>
      rw [skip, skip]
      split
      · rename_i r rest
        rw [rest, List.length_cons, List.length_cons] at enough enough'
        have line := length_dropWhile (!isNewline ·) r
        split
        · rename_i r'
          rw [List.length_cons] at enough enough' line
          split
          · rename_i level r2 bracket
            have opened := length_longBracket? bracket
            rw [readLong_fuel "comment" level (c := ⟨r2, c.line⟩) (by simp only; omega)
              (by simp only; omega : _ < fuel' + 1)]
            split
            · rename_i closed
              have left := length_readLong closed
              exact ih (by simp only at left; omega) (by simp only at left; omega)
            · rfl
          · exact ih (by simp only; omega) (by simp only; omega)
        · exact ih (by simp only; omega) (by simp only; omega)
      · rename_i b r _ rest
        rw [rest, List.length_cons] at enough enough'
        have broken := length_afterNewline b r
        split
        · exact ih (by simp only; omega) (by simp only; omega)
        · split
          · exact ih (by simp only; omega) (by simp only; omega)
          · rfl
      · rfl

/-- The fuel of a token only matters up to the number of bytes that are left. -/
theorem token_fuel {fuel fuel' : Nat} {c : Cursor} (enough : c.rest.length < fuel)
    (enough' : c.rest.length < fuel') : token fuel c = token fuel' c := by
  rw [token, token]
  cases rest : c.rest with
  | nil => rfl
  | cons b r =>
    rw [rest, List.length_cons] at enough enough'
    have quotedFuel : readString b fuel [b] ⟨r, c.line⟩ = readString b fuel' [b] ⟨r, c.line⟩ :=
      readString_fuel b (by simp only; omega) (by simp only; omega)
    simp only [quotedFuel]
    split
    · rfl
    split
    · rfl
    split
    · rfl
    split
    · split
      · rename_i level r' bracket
        have opened := length_longBracket? bracket
        rw [readLong_fuel "string" level (c := ⟨r', c.line⟩) (by simp only; omega)
          (by simp only; omega : _ < fuel')]
      · rfl
    · rfl

/-- The end of a source is a token of its own, and every other token takes bytes. -/
theorem length_token {fuel : Nat} {c c' : Cursor} {l : Lexeme} (h : token fuel c = .ok (l, c')) :
    (c.rest = [] ∧ l.token = .eof) ∨ (l.token ≠ .eof ∧ c'.rest.length < c.rest.length) := by
  revert h
  -- By the kind of token; the cases that are not named end with a fault.
  fun_cases token fuel c with
  | case1 spent =>
    intro h
    cases h
    exact .inl ⟨spent, rfl⟩
  | case2 b r rest letter word left bytes t =>
    intro h
    cases h
    refine .inr ⟨?_, ?_⟩
    · simp only [t]
      split <;> simp
    · have shorter := length_dropWhile isWordByte r
      have word : isWordByte b = true := by simp [isWordByte, letter]
      simp only [left, rest, List.dropWhile_cons, word, if_true, List.length_cons]
      omega
  | case3 b r rest _ _ n spelling left numeral =>
    intro h
    cases h
    exact .inr ⟨nofun, length_readNumeral (by simp [rest]) numeral⟩
  | case5 b r rest _ _ _ spelling left string =>
    intro h
    cases h
    have shorter := length_readString string
    exact .inr ⟨nofun, by rw [rest, List.length_cons]; exact Nat.lt_succ_of_le shorter⟩
  | case7 b r rest _ _ _ _ level r' bracket content left string =>
    intro h
    cases h
    have shorter := length_readLong string
    have opened := length_longBracket? bracket
    exact .inr ⟨nofun, by rw [rest, List.length_cons]; simp only at shorter; omega⟩
  | case10 b r rest _ _ _ _ m left mark =>
    intro h
    cases h
    have shorter := length_mark? mark
    exact .inr ⟨nofun, by rw [rest, List.length_cons]; exact Nat.lt_succ_of_le shorter⟩
  | case11 b r rest =>
    intro h
    cases h
    exact .inr ⟨nofun, by simp [rest]⟩
  | _ => exact nofun

theorem tokens_fuel {fuel fuel' : Nat} {read : Array Lexeme} {c : Cursor}
    (enough : c.rest.length < fuel) (enough' : c.rest.length < fuel') :
    tokens fuel read c = tokens fuel' read c := by
  -- Every token but the last takes bytes, by `length_token`.
  induction fuel generalizing fuel' read c with
  | zero => exact absurd enough (Nat.not_lt_zero _)
  | succ fuel ih =>
    cases fuel' with
    | zero => exact absurd enough' (Nat.not_lt_zero _)
    | succ fuel' =>
      rw [tokens, tokens, skip_fuel enough enough']
      cases skipped : skip (fuel' + 1) c with
      | error fault => rfl
      | ok c1 =>
        have left := length_skip skipped
        simp only
        rw [token_fuel (by omega) (by omega : c1.rest.length < fuel' + 1)]
        cases next : token (fuel' + 1) c1 with
        | error fault => rfl
        | ok found =>
          obtain ⟨l, c2⟩ := found
          simp only
          split
          · rfl
          · rename_i going
            obtain ⟨_, ended⟩ | ⟨_, shorter⟩ := length_token next
            · exact absurd ended going
            · exact ih (by omega) (by omega)

/-- Tokens that were read before stand in front of those that are read. -/
theorem tokens_read (fuel : Nat) (read : Array Lexeme) (c : Cursor) :
    tokens fuel read c = ⟨read ++ (tokens fuel #[] c).lexemes, (tokens fuel #[] c).fault?⟩ := by
  induction fuel generalizing read c with
  | zero => simp [tokens]
  | succ fuel ih =>
    rw [tokens, tokens]
    cases skip (fuel + 1) c with
    | error fault => simp
    | ok c1 =>
      simp only
      cases token (fuel + 1) c1 with
      | error fault => simp
      | ok found =>
        obtain ⟨l, c2⟩ := found
        simp only
        split
        · simp
        · rw [ih (read.push l), ih (#[].push l)]
          simp

theorem ne_eof_tokens {fuel : Nat} {read : Array Lexeme} {c : Cursor}
    (before : ∀ l ∈ read.toList, l.token ≠ .eof) :
    ∀ l ∈ (tokens fuel read c).lexemes.toList.dropLast, l.token ≠ .eof := by
  fun_induction tokens fuel read c with
  | case1 | case2 | case3 => exact fun l found => before l ((List.dropLast_sublist _).subset found)
  | case4 => simpa using before
  | case5 fuel read c c1 _ l c2 _ going ih =>
    refine ih fun l' found => ?_
    rw [Array.toList_push, List.mem_append, List.mem_singleton] at found
    obtain earlier | rfl := found
    · exact before l' earlier
    · exact going

end Lexer

theorem utf8_append (s t : String) : utf8 (s ++ t) = utf8 s ++ utf8 t := by
  simp [utf8, Text.toList_eq]

namespace Lexemes

/-- Only the last token of a source is its end. -/
theorem ne_eof_of_mem_dropLast {source : List UInt8} {l : Lexeme}
    (found : l ∈ (ofSource source).lexemes.toList.dropLast) : l.token ≠ .eof :=
  Lexer.ne_eof_tokens (by simp) l found

/-- The token of `return` on the first line. -/
def returnLexeme : Lexeme := ⟨.mark .return, 1, utf8 "return"⟩

theorem utf8_return : utf8 "return " = [114, 101, 116, 117, 114, 110, 32] := by decide +kernel

theorem token_return (fuel : Nat) (source : List UInt8) :
    Lexer.token fuel ⟨[114, 101, 116, 117, 114, 110, 32] ++ source, 1⟩ =
      .ok (returnLexeme, ⟨32 :: source, 1⟩) := by
  have letters : List.takeWhile Lexer.isWordByte ([114, 101, 116, 117, 114, 110, 32] ++ source) =
      [114, 101, 116, 117, 114, 110] := by
    simp [Lexer.isWordByte, Lexer.isLetter, Numeral.isDigit]
  have left : List.dropWhile Lexer.isWordByte ([114, 101, 116, 117, 114, 110, 32] ++ source) =
      32 :: source := by
    simp [Lexer.isWordByte, Lexer.isLetter, Numeral.isDigit]
  have word : Mark.word? (List.toByteArray [114, 101, 116, 117, 114, 110]) = some .return := by
    decide +kernel
  have spelling : utf8 "return" = [114, 101, 116, 117, 114, 110] := by decide +kernel
  rw [Lexer.token]
  simp only [letters, left, word, returnLexeme, spelling]
  rfl

/-- A blank before a source adds nothing. -/
theorem tokens_blank (read : Array Lexeme) (source : List UInt8) (line : Nat) {fuel : Nat}
    (enough : source.length < fuel) :
    Lexer.tokens (fuel + 1) read ⟨32 :: source, line⟩ =
      Lexer.tokens (fuel + 1) read ⟨source, line⟩ := by
  have skipped := calc
    Lexer.skip (fuel + 1) ⟨32 :: source, line⟩
    _ = Lexer.skip fuel ⟨source, line⟩ := rfl
    _ = Lexer.skip (fuel + 1) ⟨source, line⟩ := Lexer.skip_fuel enough (Nat.lt_succ_of_lt enough)
  rw [Lexer.tokens, Lexer.tokens, skipped]

/-- The word `return` with a blank before a source adds its token, and changes no other. -/
theorem ofSource_return (source : List UInt8) :
    ofSource (utf8 "return " ++ source) =
      ⟨#[returnLexeme] ++ (ofSource source).lexemes, (ofSource source).fault?⟩ := by
  have size : ([114, 101, 116, 117, 114, 110, 32] ++ source).length + 1 = source.length + 8 := by simp
  have start : Lexer.skip (source.length + 8) ⟨[114, 101, 116, 117, 114, 110, 32] ++ source, 1⟩ =
      .ok ⟨[114, 101, 116, 117, 114, 110, 32] ++ source, 1⟩ := rfl
  calc ofSource (utf8 "return " ++ source)
    _ = Lexer.tokens (source.length + 7) #[returnLexeme] ⟨32 :: source, 1⟩ := by
      rw [ofSource, utf8_return, size, Lexer.tokens, start]
      simp only [token_return]
      exact if_neg nofun
    _ = Lexer.tokens (source.length + 7) #[returnLexeme] ⟨source, 1⟩ :=
      tokens_blank _ _ _ (by omega)
    _ = Lexer.tokens (source.length + 1) #[returnLexeme] ⟨source, 1⟩ :=
      Lexer.tokens_fuel (by simp only; omega) (Nat.lt_succ_self _)
    _ = _ := Lexer.tokens_read _ _ _

/-- The byte that a written-out function begins with begins no token. -/
theorem ofSource_escape (source : List UInt8) :
    ∃ more, (ofSource (0x1B :: source)).lexemes.toList = ⟨.stray 0x1B, 1, []⟩ :: more := by
  have start : Lexer.skip (source.length + 2) ⟨0x1B :: source, 1⟩ = .ok ⟨0x1B :: source, 1⟩ := rfl
  have first : Lexer.token (source.length + 2) ⟨0x1B :: source, 1⟩ =
      .ok (⟨.stray 0x1B, 1, []⟩, ⟨source, 1⟩) := rfl
  rw [ofSource, List.length_cons, Lexer.tokens, start]
  simp only [first]
  rw [if_neg nofun, Lexer.tokens_read]
  exact ⟨(Lexer.tokens (source.length + 1) #[] ⟨source, 1⟩).lexemes.toList, by simp⟩

end Lexemes

end VaultConsole.Lua
