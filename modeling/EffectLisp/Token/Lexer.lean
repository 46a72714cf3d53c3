import EffectLisp.Token
import EffectLisp.Text.Blank
import EffectLisp.Text.Quoted

/-!
# From text to tokens

Separators and comments stand between tokens.  Two character classes meet
here and are not the same: an atom ends at any blank of Unicode, but only a
space, a tab, a carriage return and a line feed separate tokens.  A blank of
the first class alone is therefore neither skipped nor part of an atom, and
where one stands in the place of a token the text is refused.

`token?` splits off one token and never leaves more text than it was given,
which is why `lex` ends.
-/

namespace EffectLisp.Token

def isSeparator (c : Char) : Bool :=
  c = ' ' || c = '\t' || c = '\r' || c = '\n'

def isDelimiter (c : Char) : Bool :=
  Text.isBlank c || c = '(' || c = ')' || c = '\'' || c = '"' || c = ';'

/-- A carriage return or a line feed ends a line. -/
def endsLine (c : Char) : Bool :=
  c = '\r' || c = '\n'

/-- How many bytes the characters take in UTF-8. -/
def byteCount (chars : List Char) : Nat :=
  chars.foldl (fun count c => count + c.utf8Size) 0

/-- The text of a comment after its semicolon and what follows it.  A comment
reaches to a line feed, to a carriage return before a line feed, or to the end
of the text; one that meets a lone carriage return is no comment. -/
def comment? (chars : List Char) : Option (List Char × List Char) :=
  match chars.dropWhile (!endsLine ·) with
  | '\r' :: '\n' :: rest => some (chars.takeWhile (!endsLine ·), '\r' :: '\n' :: rest)
  | '\r' :: _ => none
  | rest => some (chars.takeWhile (!endsLine ·), rest)

theorem comment?_eq_some {chars text rest : List Char}
    (found : comment? chars = some (text, rest)) : chars = text ++ rest := by
  have whole := List.takeWhile_append_dropWhile (p := (!endsLine ·)) (l := chars)
  unfold comment? at found
  split at found <;> simp_all
  all_goals obtain ⟨rfl, rfl⟩ := found
  all_goals simp_all

/-- Skip separators and comments, and count the bytes from `offset` on. -/
def skipTrivia (offset : Nat) : List Char → Nat × List Char
  | [] => (offset, [])
  | c :: chars =>
      if isSeparator c then
        skipTrivia (offset + c.utf8Size) chars
      else if c = ';' then
        match _found : comment? chars with
        | some (text, rest) => skipTrivia (offset + c.utf8Size + byteCount text) rest
        | none => (offset, c :: chars)
      else (offset, c :: chars)
  termination_by chars => chars.length
  decreasing_by
    · simp
    · simp only [comment?_eq_some _found, List.length_cons, List.length_append]
      omega

/-- A string literal after its opening quote: its text, its spelling after that
quote and the rest.  Otherwise the reason, reported for a token at `offset`. -/
def literal? (offset : Nat) (chars : List Char) :
    Except LexError (String × List Char × List Char) :=
  match Text.untilQuote chars with
  | none => .error (.unterminatedString offset)
  | some (inside, rest) =>
      match Text.decode? inside with
      | none => .error (.invalidEscape offset)
      | some text => .ok (String.ofList text, inside ++ ['"'], rest)

/-- The first token of the characters, its spelling, and the rest.  A character
that starts no token is reported like an open literal: by whether a quote
follows it. -/
def token? (offset : Nat) : List Char → Except LexError (Token × List Char × List Char)
  | [] => .error (.unterminatedString offset)
  | '(' :: rest => .ok (.opening, ['('], rest)
  | ')' :: rest => .ok (.closing, [')'], rest)
  | '\'' :: rest => .ok (.quoteMark, ['\''], rest)
  | '"' :: chars => do
      let (text, spelling, rest) ← literal? offset chars
      pure (.literal text, '"' :: spelling, rest)
  | c :: chars =>
      if isDelimiter c then
        if (Text.untilQuote chars).isSome then
          .error (.invalidEscape offset)
        else .error (.unterminatedString offset)
      else
        let spelling := c :: chars.takeWhile (!isDelimiter ·)
        .ok (.atom (String.ofList spelling), spelling, chars.dropWhile (!isDelimiter ·))

theorem literal?_eq_ok {offset : Nat} {chars spelling rest : List Char} {text : String}
    (found : literal? offset chars = .ok (text, spelling, rest)) :
    chars = spelling ++ rest := by
  unfold literal? at found
  split at found
  · simp at found
  · next inside after split? =>
      split at found
      · simp at found
      · have whole := Text.untilQuote_eq_some split?
        simp only [Except.ok.injEq, Prod.mk.injEq] at found
        obtain ⟨_, rfl, rfl⟩ := found
        simp [whole]

/-- A token's spelling and the rest are the whole input, and the spelling is
never empty. -/
theorem token?_eq_ok {offset : Nat} {chars spelling rest : List Char} {token : Token}
    (found : token? offset chars = .ok (token, spelling, rest)) :
    chars = spelling ++ rest ∧ spelling ≠ [] := by
  unfold token? at found
  split at found
  · simp at found
  · simp only [Except.ok.injEq, Prod.mk.injEq] at found
    obtain ⟨_, rfl, rfl⟩ := found
    simp
  · simp only [Except.ok.injEq, Prod.mk.injEq] at found
    obtain ⟨_, rfl, rfl⟩ := found
    simp
  · simp only [Except.ok.injEq, Prod.mk.injEq] at found
    obtain ⟨_, rfl, rfl⟩ := found
    simp
  · next inside =>
      cases result : literal? offset inside with
      | error error => simp [result, bind, Except.bind] at found
      | ok parts =>
          obtain ⟨text, body, after⟩ := parts
          have whole := literal?_eq_ok result
          simp only [result, bind, Except.bind, pure, Except.pure, Except.ok.injEq,
            Prod.mk.injEq] at found
          obtain ⟨_, rfl, rfl⟩ := found
          simp [whole]
  · next c tail _ _ _ _ =>
      split at found
      · split at found <;> simp at found
      · simp only [Except.ok.injEq, Prod.mk.injEq] at found
        obtain ⟨_, rfl, rfl⟩ := found
        simp [List.takeWhile_append_dropWhile]

/-- Skipping trivia leaves no more text than there was. -/
theorem length_skipTrivia_le (offset : Nat) (chars : List Char) :
    (skipTrivia offset chars).2.length ≤ chars.length := by
  fun_induction skipTrivia offset chars with
  | case1 => simp
  | case2 offset c chars separates induction =>
      simp only [List.length_cons]
      omega
  | case3 offset chars text rest found separates induction =>
      simp only [comment?_eq_some found, List.length_cons, List.length_append]
      omega
  | case4 => simp
  | case5 => simp

/-- The tokens of characters that start at a byte offset and hold no trivia in
front, after the reversed lexemes `done`. -/
def lexFrom (done : List Lexeme) (offset : Nat) (chars : List Char) :
    Except LexError (List Lexeme) :=
  if chars = [] then .ok done.reverse
  else
    match _found : token? offset chars with
    | .error error => .error error
    | .ok (token, spelling, rest) =>
        let next := skipTrivia (offset + byteCount spelling) rest
        lexFrom (⟨token, offset⟩ :: done) next.1 next.2
  termination_by chars.length
  decreasing_by
    obtain ⟨whole, nonempty⟩ := token?_eq_ok _found
    have remaining := length_skipTrivia_le (offset + byteCount spelling) rest
    have positive := List.length_pos_iff.mpr nonempty
    simp only [whole, List.length_append]
    omega

/-- The tokens of a text with their byte offsets. -/
def lex (text : String) : Except LexError (List Lexeme) :=
  let start := skipTrivia 0 text.toList
  lexFrom [] start.1 start.2

end EffectLisp.Token
