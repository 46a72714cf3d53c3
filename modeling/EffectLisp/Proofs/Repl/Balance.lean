import EffectLisp.Proofs.Datum.Parentheses
import EffectLisp.Proofs.Token.Failure
import EffectLisp.Repl.Balance

/-!
# Balance and tokens

A balance goes through a text character by character, without tokens, and is yet told
by them.  A gap leaves it as it is but for a comment that ends the text, a parenthesis
counts where it is a token, and what is between the quotes of a literal is a string for
both.  So a text with tokens is balanced if its tokens close as many lists as they open,
and a literal without an end is a string without an end.
-/

namespace EffectLisp.Repl

open Token (Gap LineEnd Layout Reaches)

namespace Balance

/-- Take characters one after the other. -/
def scan (balance : Balance) (chars : List Char) : Balance :=
  chars.foldl step balance

@[simp] theorem scan_nil (balance : Balance) : balance.scan [] = balance := rfl

@[simp] theorem scan_cons (balance : Balance) (c : Char) (chars : List Char) :
    balance.scan (c :: chars) = (balance.step c).scan chars := rfl

@[simp] theorem scan_append (balance : Balance) (front rest : List Char) :
    balance.scan (front ++ rest) = (balance.scan front).scan rest :=
  List.foldl_append

theorem step_code
    {c : Char} (noQuote : c ≠ '"') (noComment : c ≠ ';') (noOpening : c ≠ '(')
    (noClosing : c ≠ ')') (depth : Int) :
    step ⟨depth, .code⟩ c = ⟨depth, .code⟩ := by
  simp [step, noQuote, noComment, noOpening, noClosing]

theorem step_separator
    {c : Char} (separates : Token.isSeparator c = true) (depth : Int) :
    step ⟨depth, .code⟩ c = ⟨depth, .code⟩ := by
  apply step_code <;>
  · rintro rfl
    exact absurd separates (by decide)

theorem scan_plain
    {chars : List Char} (plain : ∀ c ∈ chars, Token.isDelimiter c = false)
    (depth : Int) :
    scan ⟨depth, .code⟩ chars = ⟨depth, .code⟩ := by
  induction chars with
  | nil => rfl
  | cons c chars induction =>
      have head := plain c (by simp)
      have unchanged : step ⟨depth, .code⟩ c = ⟨depth, .code⟩ := by
        apply step_code <;>
        · rintro rfl
          exact absurd head (by decide)
      rw [scan_cons, unchanged]
      apply induction
      intro d member
      exact plain d (by simp [member])

theorem scan_comment
    {text : List Char} (inLine : ∀ c ∈ text, Token.endsLine c = false) (depth : Int) :
    scan ⟨depth, .comment⟩ text = ⟨depth, .comment⟩ := by
  induction text with
  | nil => rfl
  | cons c text induction =>
      have head := inLine c (by simp)
      have noLineFeed : c ≠ '\n' := by
        rintro rfl
        exact absurd head (by decide)
      have unchanged : step ⟨depth, .comment⟩ c = ⟨depth, .comment⟩ := by
        simp [step, noLineFeed]
      rw [scan_cons, unchanged]
      apply induction
      intro d member
      exact inLine d (by simp [member])

/-- The inside of a literal is in the string up to its last character. -/
theorem scan_unescapes
    {inside text : List Char} (unescapes : Text.Unescapes inside text) (depth : Int) :
    scan ⟨depth, .string⟩ inside = ⟨depth, .string⟩ := by
  induction unescapes with
  | nil => rfl
  | plain noQuote noBackslash _ induction =>
      rw [scan_cons]
      simpa [step, noQuote, noBackslash] using induction
  | pair _ _ induction =>
      rw [scan_cons, scan_cons]
      simpa [step] using induction

/-- Where no quote ends a string, the text ends in it. -/
theorem scan_untilQuoteFrom
    {seen chars : List Char} (endless : Text.untilQuoteFrom seen chars = none)
    (depth : Int) :
    (scan ⟨depth, .string⟩ chars).region = .string ∨
      (scan ⟨depth, .string⟩ chars).region = .escaped := by
  fun_induction Text.untilQuoteFrom seen chars with
  | case1 => exact .inl rfl
  | case2 => cases endless
  | case3 seen escaped tail induction =>
      rw [scan_cons, scan_cons]
      simpa [step] using induction endless
  | case4 seen c tail noQuote noPair induction =>
      by_cases backslash : c = '\\'
      · cases tail with
        | nil =>
            right
            simp [step, backslash]
        | cons d tail => exact absurd rfl (noPair d tail backslash)
      · have different : c ≠ '"' := noQuote
        rw [scan_cons]
        simpa [step, different, backslash] using induction endless

/-- A balance outside of strings, in a comment only where that goes on. -/
def Outside (rest : List Char) (depth : Int) (balance : Balance) : Prop :=
  balance = ⟨depth, .code⟩ ∨ LineEnd rest ∧ balance = ⟨depth, .comment⟩

/-- A gap changes no depth, be it after a comment or not. -/
theorem outside_scan_gap
    {rest gap : List Char} (isGap : Gap rest gap) (depth : Int) :
    Outside rest depth (scan ⟨depth, .code⟩ gap) ∧
      (LineEnd (gap ++ rest) → Outside rest depth (scan ⟨depth, .comment⟩ gap)) := by
  induction isGap with
  | nil => exact ⟨.inl rfl, fun lineEnd => .inr ⟨lineEnd, rfl⟩⟩
  | @separator c gap separates _ induction =>
      constructor
      · rw [scan_cons, step_separator separates]
        exact induction.1
      · intro lineEnd
        rw [List.cons_append] at lineEnd
        generalize follows : gap ++ rest = following at lineEnd
        -- A line feed ends the comment, and one follows a carriage return.
        cases lineEnd with
        | lineFeed => exact induction.1
        | carriageReturn after =>
            apply induction.2
            rw [follows]
            exact .lineFeed after
  | @comment text gap inLine lineEnd _ induction =>
      constructor
      · rw [scan_cons, scan_append]
        have begun : step ⟨depth, .code⟩ ';' = ⟨depth, .comment⟩ := rfl
        rw [begun, scan_comment inLine]
        exact induction.2 lineEnd
      · nofun

theorem outside_of_token
    {token : Token} {spelling after : List Char} {depth : Int} {balance : Balance}
    (outside : Outside (spelling ++ after) depth balance)
    (spelled : token.SpelledAs spelling after) : balance = ⟨depth, .code⟩ := by
  rcases outside with same | ⟨lineEnd, _⟩
  · exact same
  · obtain ⟨c, tail, rfl, plain, _⟩ := (Token.spells_iff.mpr spelled).head
    rw [List.cons_append] at lineEnd
    generalize tail ++ after = following at lineEnd
    cases lineEnd <;> cases plain

/-- A token changes the depth by the list that it opens or closes. -/
theorem scan_spelling
    {token : Token} {spelling after : List Char}
    (spelled : token.SpelledAs spelling after) (offset : Nat) (depth : Int) :
    scan ⟨depth, .code⟩ spelling =
      ⟨depth + openings [⟨token, offset⟩] - closings [⟨token, offset⟩], .code⟩ := by
  cases token with
  | opening =>
      cases spelled
      simp [step]
  | closing =>
      cases spelled
      simp [step]
  | quoteMark =>
      cases spelled
      simp [step]
  | literal text =>
      obtain ⟨inside, rfl, unescapes⟩ := spelled
      have begun : step ⟨depth, .code⟩ '"' = ⟨depth, .string⟩ := rfl
      rw [scan_cons, begun, scan_append, scan_unescapes unescapes]
      simp [step]
  | atom text =>
      obtain ⟨_, _, plain, _⟩ := spelled
      rw [scan_plain plain]
      simp

/-- A text that is laid out changes the depth by its tokens, and ends outside of
strings. -/
theorem outside_scan_layout
    {offset : Nat} {chars : List Char} {lexemes : List Lexeme}
    (layout : Layout offset chars lexemes) (depth : Int) :
    Outside [] (depth + openings lexemes - closings lexemes)
      (scan ⟨depth, .code⟩ chars) := by
  induction layout generalizing depth with
  | last isGap =>
      have outside := (outside_scan_gap isGap depth).1
      simpa using outside
  | @token offset gap spelling rest token lexemes isGap spelled _ induction =>
      have code := outside_of_token (outside_scan_gap isGap depth).1 spelled
      let first : List Lexeme := [⟨token, offset + Token.byteCount gap⟩]
      have outside := induction (depth + openings first - closings first)
      have total : depth + openings first - closings first + openings lexemes -
          closings lexemes =
          depth + openings (first ++ lexemes) - closings (first ++ lexemes) := by
        rw [openings_append, closings_append]
        omega
      rw [scan_append, code, scan_append, scan_spelling spelled]
      rwa [total] at outside

/-- Up to the place of a quote a text is outside of strings. -/
theorem exists_scan_of_reaches
    {place offset : Nat} {tail chars : List Char}
    (reaches : Reaches place ('"' :: tail) offset chars) (depth : Int) :
    ∃ reached, scan ⟨depth, .code⟩ chars = scan ⟨reached, .string⟩ tail := by
  induction reaches generalizing depth with
  | gap isGap _ =>
      rw [scan_append]
      rcases (outside_scan_gap isGap depth).1 with code | ⟨lineEnd, _⟩
      · refine ⟨depth, ?_⟩
        rw [code]
        rfl
      · cases lineEnd
  | token isGap spelled _ induction =>
      have code := outside_of_token (outside_scan_gap isGap depth).1 spelled
      rw [scan_append, code, scan_append, scan_spelling spelled 0]
      exact induction _

theorem isClosed_of_outside
    {rest : List Char} {depth : Int} {balance : Balance}
    (outside : Outside rest depth balance) : balance.isClosed = true ↔ depth ≤ 0 := by
  rcases outside with rfl | ⟨_, rfl⟩ <;> simp [isClosed]

end Balance

/-- A text with tokens is balanced if and only if they close as many lists as they
open, or more.  So what is read is balanced, and what has a list that is never closed
is not; nor is a text with a literal without an end. -/
theorem balanced_as_read (text : String) :
    (∀ lexemes, Token.lex text = .ok lexemes →
      (isBalanced text = true ↔ openings lexemes ≤ closings lexemes)) ∧
    (∀ forms, Datum.readAll text = .ok forms → isBalanced text = true) ∧
    (∀ offset,
      Datum.readAll text = .error (.parseFailure (.structural (.unclosedList offset))) ∨
        Datum.read text = .error (.parseFailure (.structural (.unclosedList offset))) →
      isBalanced text = false) ∧
    ∀ offset, Token.lex text = .error (.unterminatedString offset) →
      Token.StandsAt text offset '"' → isBalanced text = false := by
  have counted : ∀ lexemes, Token.lex text = .ok lexemes →
      (isBalanced text = true ↔ openings lexemes ≤ closings lexemes) := by
    intro lexemes lexed
    have outside := Balance.outside_scan_layout (Token.lexAt_eq_ok_iff.mp lexed) 0
    have closed := Balance.isClosed_of_outside outside
    change (Balance.scan _ _).isClosed = true ↔ _
    rw [Balance.start, closed]
    omega
  refine ⟨counted, ?_, ?_, ?_⟩
  · intro forms read
    obtain ⟨lexemes, lexed, derives⟩ := Datum.readAll_eq_ok_iff.mp read
    exact (counted lexemes lexed).mpr (Nat.le_of_eq derives.closings_eq.symm)
  · intro offset unclosed
    obtain ⟨lexemes, lexed, fewer⟩ : ∃ lexemes,
        Token.lex text = .ok lexemes ∧ closings lexemes < openings lexemes := by
      rcases unclosed with all | one
      · obtain ⟨lexemes, lexed, refused⟩ := Datum.exists_parse_of_structural all
        exact ⟨lexemes, lexed, Datum.closings_lt_of_parseAll refused⟩
      · obtain ⟨lexemes, lexed, refused⟩ := Datum.exists_parse_of_structural one
        exact ⟨lexemes, lexed, Datum.closings_lt_of_parseOne refused⟩
    rw [← Bool.not_eq_true, counted lexemes lexed]
    exact Nat.not_le.mpr fewer
  · intro offset failed stands
    obtain ⟨c, tail, reaches, refused, same⟩ := Token.lexAt_eq_error_iff.mp failed
    cases (reaches.standsAt).unique stands
    have endless : Text.untilQuote tail = none := by
      unfold Token.refusal at same
      split at same
      · cases same
      · next missing => simpa using missing
    obtain ⟨depth, scanned⟩ := Balance.exists_scan_of_reaches reaches 0
    change (Balance.scan _ _).isClosed = false
    rw [Balance.start, scanned]
    rcases Balance.scan_untilQuoteFrom endless depth with inside | inside <;>
      simp [Balance.isClosed, inside]

/-- A parenthesis in a literal and one in a comment that ends with two characters, a
list that is never closed, and a literal whose last quote is escaped. -/
theorem balanced_as_read_comment :
    (Token.lex "(\")\" ;(\r\n'b)" =
        .ok [⟨.opening, 0⟩, ⟨.literal ")", 1⟩, ⟨.quoteMark, 9⟩, ⟨.atom "b", 10⟩,
          ⟨.closing, 11⟩] ∧
      isBalanced "(\")\" ;(\r\n'b)" = true) ∧
    (Datum.readAll "(()" = .error (.parseFailure (.structural (.unclosedList 0))) ∧
      isBalanced "(()" = false) ∧
    Token.lex "(a \"\\\"" = .error (.unterminatedString 3) ∧
      Token.StandsAt "(a \"\\\"" 3 '"' ∧ isBalanced "(a \"\\\"" = false := by
  have lexed : Token.lex "(\")\" ;(\r\n'b)" =
      .ok [⟨.opening, 0⟩, ⟨.literal ")", 1⟩, ⟨.quoteMark, 9⟩, ⟨.atom "b", 10⟩,
        ⟨.closing, 11⟩] :=
    eq_ok_of_toOption (by decide +kernel)
  have unclosed : Datum.readAll "(()" =
      .error (.parseFailure (.structural (.unclosedList 0))) := by
    have chars : "(()".toList = ['(', '(', ')'] := by decide +kernel
    have opens : Token.lex "(()" = .ok [⟨.opening, 0⟩, ⟨.opening, 1⟩, ⟨.closing, 2⟩] := by
      rw [Token.lex_eq_lexAt, chars]
      with_unfolding_all rfl
    rw [Datum.readAll, Datum.tokens, opens]
    rfl
  have chars : "(a \"\\\"".toList = ['(', 'a', ' ', '"', '\\', '"'] := by decide +kernel
  have failed : Token.lex "(a \"\\\"" = .error (.unterminatedString 3) := by
    rw [Token.lex_eq_lexAt, chars]
    with_unfolding_all rfl
  have stands : Token.StandsAt "(a \"\\\"" 3 '"' := ⟨['(', 'a', ' '], ['\\', '"'], chars, rfl⟩
  exact ⟨⟨lexed, ((balanced_as_read _).1 _ lexed).mpr (by decide)⟩,
    ⟨unclosed, (balanced_as_read _).2.2.1 0 (.inl unclosed)⟩,
    failed, stands, (balanced_as_read _).2.2.2 3 failed stands⟩

end EffectLisp.Repl
