import EffectLisp.Proofs.Token.Layout
import EffectLisp.Proofs.Token.Shift

/-!
# Line feeds in a layout

No token but a literal holds a line feed, and a comment ends at one.  So a text and
another one that begins after a line feed are laid out together as each of them is
alone, the second so many bytes further on; and a gap can be divided at a line feed.
-/

namespace EffectLisp.Token

/-- An item that is not in the first part of a list is in the second. -/
theorem exists_of_append_eq_of_not_mem
    {α : Type} {text gap front back : List α} {item : α} (missing : item ∉ text)
    (same : text ++ gap = front ++ item :: back) :
    ∃ middle, front = text ++ middle ∧ gap = middle ++ item :: back := by
  rcases List.append_eq_append_iff.mp same with
    ⟨middle, whole, later⟩ | ⟨middle, whole, later⟩
  · exact ⟨middle, whole, later⟩
  · cases middle with
    | nil => exact ⟨[], by simp [whole], later.symm⟩
    | cons first middle =>
        obtain ⟨rfl, -⟩ := List.cons.inj later
        exact absurd (by simp [whole]) missing

section Lines

theorem LineEnd.append_line
    {front : List Char} (lineEnd : LineEnd front) (rest : List Char) :
    LineEnd (front ++ '\n' :: rest) := by
  cases lineEnd with
  | endOfText => exact .lineFeed rest
  | lineFeed front => exact .lineFeed _
  | carriageReturn front => exact .carriageReturn _

/-- Whether a line ends is seen from two characters, and from one unless it is a
carriage return. -/
theorem LineEnd.congr
    {front rest : List Char} {c : Char} (noReturn : c ≠ '\r')
    (lineEnd : LineEnd (front ++ c :: rest)) (other : List Char) :
    LineEnd (front ++ c :: other) := by
  match front with
  | [] =>
      cases lineEnd with
      | lineFeed => exact .lineFeed other
      | carriageReturn => exact absurd rfl noReturn
  | [first] =>
      cases lineEnd with
      | lineFeed => exact .lineFeed _
      | carriageReturn => exact .carriageReturn other
  | first :: second :: front =>
      cases lineEnd with
      | lineFeed => exact .lineFeed _
      | carriageReturn => exact .carriageReturn _

end Lines

namespace Gap

variable {gap rest : List Char}

theorem congr
    {c : Char} (noReturn : c ≠ '\r') (isGap : Gap (c :: rest) gap) (other : List Char) :
    Gap (c :: other) gap := by
  induction isGap with
  | nil => exact .nil
  | separator separates _ induction => exact .separator separates induction
  | comment inLine lineEnd _ induction =>
      exact .comment inLine (lineEnd.congr noReturn other) induction

/-- What is a gap at the end of a text is one at the end of a line. -/
theorem before_line (isGap : Gap [] gap) (rest : List Char) : Gap ('\n' :: rest) gap := by
  induction isGap with
  | nil => exact .nil
  | separator separates _ induction => exact .separator separates induction
  | comment inLine lineEnd _ induction =>
      rw [List.append_nil] at lineEnd
      exact .comment inLine (lineEnd.append_line rest) induction

theorem append
    {front back : List Char} (first : Gap (back ++ rest) front) (second : Gap rest back) :
    Gap rest (front ++ back) := by
  induction first with
  | nil => exact second
  | separator separates _ induction => exact .separator separates induction
  | comment inLine lineEnd _ induction =>
      rw [← List.append_assoc] at lineEnd
      rw [List.cons_append, List.append_assoc]
      exact .comment inLine lineEnd induction

/-- A gap up to the end of a line goes on with the next line. -/
theorem append_line
    {front back : List Char} (first : Gap ['\n'] front) (second : Gap rest back) :
    Gap rest (front ++ '\n' :: back) := by
  have upToLine : Gap ('\n' :: back ++ rest) front := first.congr (by decide) _
  exact upToLine.append (.separator rfl second)

/-- A gap is divided at a line feed, since no comment holds one. -/
theorem of_append_line
    {front back : List Char} (isGap : Gap rest (front ++ '\n' :: back)) :
    Gap ['\n'] front ∧ Gap rest back := by
  generalize whole : front ++ '\n' :: back = gap at isGap
  induction isGap generalizing front with
  | nil => simp at whole
  | @separator c gap separates later induction =>
      cases front with
      | nil =>
          cases whole
          exact ⟨.nil, later⟩
      | cons first front =>
          cases whole
          obtain ⟨before, after⟩ := induction rfl
          exact ⟨.separator separates before, after⟩
  | @comment text gap inLine lineEnd _ induction =>
      cases front with
      | nil => cases whole
      | cons first front =>
          obtain ⟨rfl, split⟩ := List.cons.inj whole
          have missing : '\n' ∉ text := by
            intro member
            exact absurd (inLine '\n' member) (by decide)
          obtain ⟨middle, rfl, rfl⟩ := exists_of_append_eq_of_not_mem missing split.symm
          obtain ⟨before, after⟩ := induction rfl
          rw [List.append_assoc, List.cons_append] at lineEnd
          exact ⟨.comment inLine (lineEnd.congr (by decide) []) before, after⟩

end Gap

/-- A token is spelled alike before any other rest that ends an atom as well. -/
theorem SpelledAs.congr
    {token : Token} {spelling rest other : List Char} (spelled : token.SpelledAs spelling rest)
    (ends : ∀ c tail, other = c :: tail →
      isDelimiter c = true ∨ ∃ after, rest = c :: after) :
    token.SpelledAs spelling other := by
  cases token with
  | atom text =>
      obtain ⟨same, nonempty, plain, stops⟩ := spelled
      refine ⟨same, nonempty, plain, ?_⟩
      intro c tail follows
      rcases ends c tail follows with delimits | ⟨after, goesOn⟩
      · exact delimits
      · exact stops c after goesOn
  | _ => exact spelled

theorem SpelledAs.before_delimiter
    {token : Token} {spelling rest : List Char} (spelled : token.SpelledAs spelling rest)
    {c : Char} (delimits : isDelimiter c = true) (other : List Char) :
    token.SpelledAs spelling (rest ++ c :: other) := by
  apply spelled.congr
  intro d tail follows
  cases rest with
  | nil =>
      obtain ⟨rfl, -⟩ := List.cons.inj follows
      exact .inl delimits
  | cons first rest =>
      obtain ⟨rfl, -⟩ := List.cons.inj follows
      exact .inr ⟨rest, rfl⟩

theorem SpelledAs.before_line
    {token : Token} {spelling rest : List Char} (spelled : token.SpelledAs spelling rest)
    (other : List Char) : token.SpelledAs spelling (rest ++ '\n' :: other) :=
  spelled.before_delimiter (by decide) other

/-- How a token is spelled is seen from any part of what follows it. -/
theorem SpelledAs.of_append
    {token : Token} {spelling front back : List Char}
    (spelled : token.SpelledAs spelling (front ++ back)) : token.SpelledAs spelling front := by
  apply spelled.congr
  intro c tail follows
  right
  exact ⟨tail ++ back, by rw [follows, List.cons_append]⟩

theorem SpelledAs.up_to_line
    {token : Token} {spelling front back : List Char}
    (spelled : token.SpelledAs spelling (front ++ '\n' :: back)) :
    token.SpelledAs spelling (front ++ ['\n']) := by
  have whole : token.SpelledAs spelling ((front ++ ['\n']) ++ back) := by
    rwa [List.append_assoc, List.singleton_append]
  exact whole.of_append

/-- A token begins with a character that ends no line. -/
theorem SpelledAs.head
    {token : Token} {spelling rest : List Char} (spelled : token.SpelledAs spelling rest) :
    ∃ c tail, spelling = c :: tail ∧ isSeparator c = false := by
  obtain ⟨c, tail, whole, plain, -⟩ := (spells_iff.mpr spelled).head
  exact ⟨c, tail, whole, plain⟩

/-- A gap in front of a token does not depend on what follows the token. -/
theorem Gap.before_token
    {token : Token} {gap spelling rest after : List Char}
    (isGap : Gap (spelling ++ rest) gap) (spelled : token.SpelledAs spelling after)
    (other : List Char) : Gap (spelling ++ other) gap := by
  obtain ⟨c, tail, rfl, plain⟩ := spelled.head
  apply isGap.congr
  rintro rfl
  exact absurd plain (by decide)

/-- A layout goes on with what is laid out after a line feed. -/
theorem Layout.append_line
    {offset : Nat} {front back : List Char} {lexemes others : List Lexeme}
    (first : Layout offset front lexemes)
    (second : Layout (offset + byteCount front + 1) back others) :
    Layout offset (front ++ '\n' :: back) (lexemes ++ others) := by
  induction first with
  | @last offset gap isGap =>
      have upToLine : Gap ['\n'] gap := isGap.before_line []
      have further (text : List Char) : offset + byteCount (gap ++ '\n' :: text) =
          offset + byteCount gap + 1 + byteCount text := by
        rw [byteCount_append, byteCount_cons]
        change offset + (byteCount gap + (1 + byteCount text)) = _
        omega
      cases second with
      | last otherGap => exact .last (upToLine.append_line otherGap)
      | @token _ otherGap spelling rest token lexemes nextGap spelled later =>
          rw [← further] at later
          have layout := Layout.token (upToLine.append_line nextGap) spelled later
          rw [further] at layout
          simpa using layout
  | @token offset gap spelling rest token lexemes isGap spelled _ induction =>
      rw [List.append_assoc, List.append_assoc, List.cons_append]
      apply Layout.token (isGap.before_token spelled _) (spelled.before_line back)
      apply induction
      simpa [Nat.add_assoc] using second

/-- What is laid out further on is laid out at the start with the same tokens. -/
theorem Layout.exists_lex
    {offset : Nat} {text : String} {lexemes : List Lexeme}
    (layout : Layout offset text.toList lexemes) :
    ∃ own, lex text = .ok own ∧ lexemes = own.map (Lexeme.shift offset) :=
  lex_of_lexAt (lexAt_eq_ok_iff.mpr layout)

theorem layout_of_lex
    {text : String} {lexemes : List Lexeme} (lexed : lex text = .ok lexemes)
    (offset : Nat) : Layout offset text.toList (lexemes.map (Lexeme.shift offset)) := by
  apply lexAt_eq_ok_iff.mp
  have shifted := lexAt_shift offset 0 text.toList
  rw [Nat.add_zero, ← lex_eq_lexAt, lexed] at shifted
  exact shifted

end EffectLisp.Token
