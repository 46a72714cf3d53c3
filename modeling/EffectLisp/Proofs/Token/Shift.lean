import EffectLisp.Proofs.Token.Lexer

/-!
# Lexing further on

The offset at which a text starts is only added to the offsets that are reported
for it: the tokens, the kind of an error and the text that is consumed do not
depend on it.
-/

namespace EffectLisp

/-- The lexeme that many bytes further on. -/
def Lexeme.shift (count : Nat) (lexeme : Lexeme) : Lexeme :=
  ⟨lexeme.token, count + lexeme.offset⟩

@[simp] theorem Lexeme.token_shift (count : Nat) (lexeme : Lexeme) :
    (lexeme.shift count).token = lexeme.token := rfl

/-- The error that many bytes further on. -/
def LexError.shift (count : Nat) : LexError → LexError
  | .unterminatedString offset => .unterminatedString (count + offset)
  | .invalidEscape offset => .invalidEscape (count + offset)

namespace Token

/-- The lexemes or the error that many bytes further on. -/
def shifted (count : Nat) : Except LexError (List Lexeme) → Except LexError (List Lexeme)
  | .ok lexemes => .ok (lexemes.map (Lexeme.shift count))
  | .error error => .error (error.shift count)

theorem skipTrivia_shift (count offset : Nat) (chars : List Char) :
    skipTrivia (count + offset) chars =
      (count + (skipTrivia offset chars).1, (skipTrivia offset chars).2) := by
  fun_induction skipTrivia offset chars with
  | case1 => rw [skipTrivia]
  | case2 offset c chars separates induction =>
      rw [skipTrivia_separator separates, Nat.add_assoc]
      exact induction
  | case3 offset chars text rest found separates induction =>
      rw [skipTrivia_comment found, Nat.add_assoc, Nat.add_assoc, ← Nat.add_assoc offset]
      exact induction
  | case4 offset chars found separates =>
      rw [skipTrivia, if_neg separates, if_pos rfl]
      split
      · next result =>
          rw [found] at result
          cases result
      · rfl
  | case5 offset c chars separates noComment =>
      rw [skipTrivia, if_neg separates, if_neg noComment]

theorem literal?_shift (count offset : Nat) (chars : List Char) :
    literal? (count + offset) chars =
      (literal? offset chars).mapError (LexError.shift count) := by
  unfold literal?
  split
  · rfl
  · split <;> rfl

theorem token?_shift (count offset : Nat) (chars : List Char) :
    token? (count + offset) chars =
      (token? offset chars).mapError (LexError.shift count) := by
  unfold token?
  split
  · rfl
  · rfl
  · rfl
  · rfl
  · next inside =>
      rw [literal?_shift]
      cases literal? offset inside <;> rfl
  · split
    · split <;> rfl
    · rfl

theorem lexFrom_shift (count offset : Nat) (chars : List Char) :
    lexFrom [] (count + offset) chars = shifted count (lexFrom [] offset chars) := by
  by_cases empty : chars = []
  · simp [empty, shifted]
  · have further := token?_shift count offset chars
    cases found : token? offset chars with
    | error error =>
        rw [found] at further
        rw [lexFrom_error empty found, lexFrom_error empty further]
        rfl
    | ok parts =>
        obtain ⟨token, spelling, rest⟩ := parts
        obtain ⟨whole, spells⟩ := Spells.of_token? found
        have shorter := spells.length_skipTrivia_lt (offset + byteCount spelling)
        rw [whole, spells.lexFrom_eq, spells.lexFrom_eq, lexFrom_eq_map [_],
          lexFrom_eq_map [_], Nat.add_assoc, skipTrivia_shift, lexFrom_shift]
        cases lexFrom [] (skipTrivia (offset + byteCount spelling) rest).1
            (skipTrivia (offset + byteCount spelling) rest).2 <;> rfl
termination_by chars.length
decreasing_by exact whole ▸ shorter

/-- A text further on has the same lexemes or the same error, further on. -/
theorem lexAt_shift (count offset : Nat) (chars : List Char) :
    lexAt (count + offset) chars = shifted count (lexAt offset chars) := by
  rw [lexAt, skipTrivia_shift, lexFrom_shift, lexAt]

/-- What is lexed further on has the tokens of the text on its own. -/
theorem lex_of_lexAt
    {text : String} {offset : Nat} {lexemes : List Lexeme}
    (lexed : lexAt offset text.toList = .ok lexemes) :
    ∃ own, lex text = .ok own ∧ lexemes = own.map (Lexeme.shift offset) := by
  rw [← Nat.add_zero offset, lexAt_shift, ← lex_eq_lexAt] at lexed
  cases result : lex text with
  | error error =>
      rw [result] at lexed
      cases lexed
  | ok own =>
      rw [result] at lexed
      cases lexed
      exact ⟨own, rfl, by simp⟩

end Token

end EffectLisp
