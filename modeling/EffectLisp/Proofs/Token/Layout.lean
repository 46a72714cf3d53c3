import EffectLisp.Proofs.Token.Lexer

/-!
# The layout of a text

A text that is lexed is gaps and tokens by turns: a gap is separators and comments in
a row, and a token is spelled by the piece of text at its offset.  `Layout` says so
without looking at how the text is read, and exactly the texts that are laid out are
lexed.  So nothing of a text is lost, and its lexemes follow from it.
-/

namespace EffectLisp.Token

/-- What follows a comment: the end of the text or of a line. -/
inductive LineEnd : List Char → Prop where
  | endOfText : LineEnd []
  | lineFeed (rest : List Char) : LineEnd ('\n' :: rest)
  | carriageReturn (rest : List Char) : LineEnd ('\r' :: '\n' :: rest)

/-- Separators and comments in a row, up to the rest of a text. -/
inductive Gap (rest : List Char) : List Char → Prop where
  | nil : Gap rest []
  | separator {c : Char} {gap : List Char} :
      isSeparator c = true →
      Gap rest gap →
      Gap rest (c :: gap)
  | comment {text gap : List Char} :
      (∀ c ∈ text, endsLine c = false) →
      LineEnd (gap ++ rest) →
      Gap rest gap →
      Gap rest (';' :: (text ++ gap))

/-- What a token is spelled as where `rest` follows.  An atom is its own spelling, and
goes on up to a delimiter or the end of the text. -/
def SpelledAs : Token → List Char → List Char → Prop
  | .opening, spelling, _ => spelling = ['(']
  | .closing, spelling, _ => spelling = [')']
  | .quoteMark, spelling, _ => spelling = ['\'']
  | .literal text, spelling, _ =>
      ∃ inside, spelling = '"' :: (inside ++ ['"']) ∧ Text.Unescapes inside text.toList
  | .atom text, spelling, rest =>
      spelling = text.toList ∧ spelling ≠ [] ∧ (∀ c ∈ spelling, isDelimiter c = false) ∧
        ∀ c tail, rest = c :: tail → isDelimiter c = true

/-- The characters from a byte offset on are a gap and the end of the text, or a gap, a
token, and what is laid out after that. -/
inductive Layout : Nat → List Char → List Lexeme → Prop where
  | last {offset : Nat} {gap : List Char} :
      Gap [] gap →
      Layout offset gap []
  | token {offset : Nat} {gap spelling rest : List Char} {token : Token}
      {lexemes : List Lexeme} :
      Gap (spelling ++ rest) gap →
      token.SpelledAs spelling rest →
      Layout (offset + byteCount gap + byteCount spelling) rest lexemes →
      Layout offset (gap ++ (spelling ++ rest)) (⟨token, offset + byteCount gap⟩ :: lexemes)

theorem spells_iff {token : Token} {spelling rest : List Char} :
    Spells token spelling rest ↔ token.SpelledAs spelling rest := by
  constructor
  · intro spells
    cases spells with
    | opening => rfl
    | closing => rfl
    | quoteMark => rfl
    | @literal inside text _ ends decoded =>
        refine ⟨inside, rfl, ?_⟩
        rw [String.toList_ofList]
        exact (Text.unescapes_iff rest).mpr ⟨ends, decoded⟩
    | atom atom ends =>
        refine ⟨String.toList_ofList.symm, atom.nonempty, atom.plain, ?_⟩
        intro c tail follows
        simpa using ends c tail follows
  · intro spelled
    cases token with
    | opening =>
        cases spelled
        exact .opening rest
    | closing =>
        cases spelled
        exact .closing rest
    | quoteMark =>
        cases spelled
        exact .quoteMark rest
    | literal text =>
        obtain ⟨inside, rfl, unescapes⟩ := spelled
        obtain ⟨ends, decoded⟩ := (Text.unescapes_iff rest).mp unescapes
        rw [← String.ofList_toList (s := text)]
        exact .literal ends decoded
    | atom text =>
        obtain ⟨rfl, nonempty, plain, ends⟩ := spelled
        have spells : Spells (.atom (String.ofList text.toList)) text.toList rest := by
          apply Spells.atom ⟨nonempty, plain⟩
          intro c tail follows
          simp [ends c tail follows]
        rwa [String.ofList_toList] at spells

section Gaps

theorem LineEnd.stopsAt {rest : List Char} (lineEnd : LineEnd rest) :
    Text.StopsAt (!endsLine ·) rest := by
  cases lineEnd with
  | endOfText => exact Text.stopsAt_nil _
  | lineFeed rest => exact Text.stopsAt_cons (by decide) rest
  | carriageReturn rest => exact Text.stopsAt_cons (by decide) _

theorem comment?_eq_some_iff {chars text rest : List Char} :
    comment? chars = some (text, rest) ↔
      chars = text ++ rest ∧ (∀ c ∈ text, endsLine c = false) ∧ LineEnd rest := by
  constructor
  · intro found
    refine ⟨comment?_eq_some found, ?_⟩
    have stops := Text.stopsAt_dropWhile (!endsLine ·) chars
    have inLine : ∀ c ∈ chars.takeWhile (!endsLine ·), endsLine c = false := by
      intro c member
      simpa using List.all_eq_true.mp List.all_takeWhile c member
    unfold comment? at found
    split at found
    · cases found
      exact ⟨inLine, .carriageReturn _⟩
    · cases found
    · next noPair noReturn =>
        cases found
        refine ⟨inLine, ?_⟩
        cases ends : chars.dropWhile (!endsLine ·) with
        | nil => exact .endOfText
        | cons c rest =>
            have ended : endsLine c = true := by simpa using stops c rest ends
            rcases (by simpa [endsLine] using ended : c = '\r' ∨ c = '\n') with rfl | rfl
            · exact absurd ends (noReturn rest)
            · exact .lineFeed rest
  · rintro ⟨rfl, inLine, lineEnd⟩
    have plain : ∀ c ∈ text, (!endsLine c) = true := by
      intro c member
      simp [inLine c member]
    have taken := Text.takeWhile_append_of_stopsAt plain lineEnd.stopsAt
    have dropped := Text.dropWhile_append_of_stopsAt plain lineEnd.stopsAt
    rw [comment?, dropped, taken]
    cases lineEnd with
    | endOfText => rfl
    | lineFeed rest => rfl
    | carriageReturn rest => rfl

/-- A gap is skipped whole. -/
theorem Gap.skipTrivia_eq
    {gap rest : List Char} (isGap : Gap rest gap) (offset : Nat) :
    skipTrivia offset (gap ++ rest) = skipTrivia (offset + byteCount gap) rest := by
  induction isGap generalizing offset with
  | nil => rfl
  | separator separates _ induction =>
      rw [List.cons_append, skipTrivia_separator separates, induction, byteCount_cons,
        Nat.add_assoc]
  | @comment text gap inLine lineEnd _ induction =>
      have found : comment? (text ++ (gap ++ rest)) = some (text, gap ++ rest) :=
        comment?_eq_some_iff.mpr ⟨rfl, inLine, lineEnd⟩
      rw [List.cons_append, List.append_assoc, skipTrivia_comment found, induction,
        byteCount_cons, byteCount_append]
      simp only [Nat.add_assoc]

/-- What is skipped is a gap. -/
theorem exists_gap (offset : Nat) (chars : List Char) :
    ∃ gap, chars = gap ++ (skipTrivia offset chars).2 ∧
      (skipTrivia offset chars).1 = offset + byteCount gap ∧
      Gap (skipTrivia offset chars).2 gap := by
  fun_induction skipTrivia offset chars with
  | case1 => exact ⟨[], rfl, rfl, .nil⟩
  | case2 offset c chars separates induction =>
      obtain ⟨gap, whole, count, isGap⟩ := induction
      refine ⟨c :: gap, congrArg _ whole, ?_, .separator separates isGap⟩
      rw [count, byteCount_cons, Nat.add_assoc]
  | case3 offset chars text rest found separates induction =>
      obtain ⟨gap, whole, count, isGap⟩ := induction
      obtain ⟨split, inLine, lineEnd⟩ := comment?_eq_some_iff.mp found
      -- The end of the line is not part of the comment but begins the gap after it.
      rw [whole] at lineEnd
      refine ⟨';' :: (text ++ gap), ?_, ?_, .comment inLine lineEnd isGap⟩
      · rw [List.cons_append, List.append_assoc, ← whole, ← split]
      · rw [count, byteCount_cons, byteCount_append]
        simp only [Nat.add_assoc]
  | case4 => exact ⟨[], rfl, rfl, .nil⟩
  | case5 => exact ⟨[], rfl, rfl, .nil⟩

end Gaps

theorem Lexed.layout
    {offset : Nat} {chars : List Char} {lexemes : List Lexeme}
    (lexed : Lexed offset chars lexemes) {start : Nat} {gap : List Char}
    (isGap : Gap chars gap) (count : offset = start + byteCount gap) :
    Layout start (gap ++ chars) lexemes := by
  -- What was skipped before a token is not part of the derivation, so it is carried along.
  induction lexed generalizing start gap with
  | nil =>
      rw [List.append_nil]
      exact .last isGap
  | @cons token spelling rest offset lexemes spells _ induction =>
      subst count
      obtain ⟨next, whole, place, nextGap⟩ :=
        exists_gap (start + byteCount gap + byteCount spelling) rest
      apply Layout.token isGap (spells_iff.mp spells)
      rw [whole]
      exact induction nextGap place

/-- Exactly the texts that are laid out are lexed, and into the lexemes of the layout. -/
theorem lexAt_eq_ok_iff
    {offset : Nat} {chars : List Char} {lexemes : List Lexeme} :
    lexAt offset chars = .ok lexemes ↔ Layout offset chars lexemes := by
  constructor
  · intro lexed
    obtain ⟨gap, whole, place, isGap⟩ := exists_gap offset chars
    rw [whole]
    exact (Lexed.of_lexFrom lexed).layout isGap place
  · intro layout
    induction layout with
    | @last offset gap isGap =>
        have skipped := isGap.skipTrivia_eq offset
        rw [List.append_nil] at skipped
        rw [lexAt, skipped, ← lexAt, lexAt_nil]
    | @token offset gap spelling rest token lexemes isGap spelled _ induction =>
        have spells := spells_iff.mpr spelled
        rw [lexAt, isGap.skipTrivia_eq, ← lexAt, spells.lexAt_eq, induction]
        rfl

section Places

theorem SpelledAs.nonempty
    {token : Token} {spelling rest : List Char}
    (spelled : token.SpelledAs spelling rest) : spelling ≠ [] :=
  (spells_iff.mpr spelled).nonempty

theorem Layout.length_le
    {offset : Nat} {chars : List Char} {lexemes : List Lexeme}
    (layout : Layout offset chars lexemes) : lexemes.length ≤ chars.length := by
  induction layout with
  | last => exact Nat.zero_le _
  | token _ spelled _ induction =>
      have positive := List.length_pos_iff.mpr spelled.nonempty
      rw [List.length_cons, List.length_append, List.length_append]
      omega

theorem Layout.le_offset
    {offset : Nat} {chars : List Char} {lexemes : List Lexeme}
    (layout : Layout offset chars lexemes) :
    ∀ lexeme ∈ lexemes, offset ≤ lexeme.offset := by
  induction layout with
  | last => simp
  | token _ _ _ induction =>
      intro lexeme member
      rcases List.mem_cons.mp member with rfl | later
      · exact Nat.le_add_right _ _
      · have further := induction lexeme later
        omega

/-- A token begins after the one before it has ended. -/
theorem Layout.sorted
    {offset : Nat} {chars : List Char} {lexemes : List Lexeme}
    (layout : Layout offset chars lexemes) :
    lexemes.Pairwise (fun first second => first.offset < second.offset) := by
  induction layout with
  | last => exact .nil
  | @token offset gap spelling _ _ _ _ spelled later induction =>
      apply List.Pairwise.cons
      · intro lexeme member
        have positive := List.length_pos_iff.mpr spelled.nonempty
        have bytes := length_le_byteCount spelling
        have further := later.le_offset lexeme member
        change offset + byteCount gap < lexeme.offset
        omega
      · exact induction

/-- The piece of the text that begins so many bytes in spells the lexeme's token. -/
def StandsIn (text : String) (lexeme : Lexeme) : Prop :=
  ∃ front spelling rest : String,
    text = front ++ spelling ++ rest ∧ lexeme.offset = front.utf8ByteSize ∧
      lexeme.token.SpelledAs spelling.toList rest.toList

theorem Layout.exists_split
    {offset : Nat} {chars : List Char} {lexemes : List Lexeme}
    (layout : Layout offset chars lexemes) :
    ∀ lexeme ∈ lexemes, ∃ front spelling rest,
      chars = front ++ (spelling ++ rest) ∧ lexeme.offset = offset + byteCount front ∧
        lexeme.token.SpelledAs spelling rest := by
  induction layout with
  | last => simp
  | @token offset gap spelling rest _ _ _ spelled _ induction =>
      intro lexeme member
      rcases List.mem_cons.mp member with rfl | later
      · exact ⟨gap, spelling, rest, rfl, rfl, spelled⟩
      · obtain ⟨front, own, after, rfl, place, ownSpelled⟩ := induction lexeme later
        refine ⟨gap ++ spelling ++ front, own, after, ?_, ?_, ownSpelled⟩
        · simp only [List.append_assoc]
        · rw [place, byteCount_append, byteCount_append]
          simp only [Nat.add_assoc]

theorem Layout.standsIn
    {text : String} {lexemes : List Lexeme} (layout : Layout 0 text.toList lexemes) :
    ∀ lexeme ∈ lexemes, StandsIn text lexeme := by
  intro lexeme member
  obtain ⟨front, spelling, rest, whole, place, spelled⟩ := layout.exists_split lexeme member
  refine ⟨String.ofList front, String.ofList spelling, String.ofList rest, ?_, ?_, ?_⟩
  · rw [← String.ofList_append, ← String.ofList_append, List.append_assoc, ← whole,
      String.ofList_toList]
  · rw [place, utf8ByteSize_ofList, Nat.zero_add]
  · rw [String.toList_ofList, String.toList_ofList]
    exact spelled

theorem StandsIn.isValid
    {text : String} {lexeme : Lexeme} (stands : StandsIn text lexeme) :
    (⟨lexeme.offset⟩ : String.Pos.Raw).IsValid text := by
  obtain ⟨front, spelling, rest, rfl, place, _⟩ := stands
  apply String.Pos.Raw.isValid_iff_exists_append.mpr
  refine ⟨front, spelling ++ rest, String.append_assoc, ?_⟩
  rw [place]
  rfl

end Places

theorem length_skipTrivia_lt_of_token?
    {offset : Nat} {chars spelling rest : List Char} {token : Token}
    (found : token? offset chars = .ok (token, spelling, rest)) (next : Nat) :
    (skipTrivia next rest).2.length < chars.length := by
  obtain ⟨rfl, spells⟩ := Spells.of_token? found
  exact spells.length_skipTrivia_lt next

/-- A text is lexed if and only if it is gaps and tokens by turns, into the lexemes of
its layout.  They stand in the text in their order, at bytes where a character begins,
and each is spelled by a piece of the text.  After a token less is left to read. -/
theorem lex_loses_nothing (text : String) :
    (∀ lexemes, lex text = .ok lexemes ↔ Layout 0 text.toList lexemes) ∧
    (∀ lexemes, lex text = .ok lexemes →
      lexemes.Pairwise (fun first second => first.offset < second.offset) ∧
      (∀ lexeme ∈ lexemes, StandsIn text lexeme ∧
        (⟨lexeme.offset⟩ : String.Pos.Raw).IsValid text) ∧
      lexemes.length ≤ text.length) ∧
    ∀ offset chars token spelling rest,
      token? offset chars = .ok (token, spelling, rest) →
      (skipTrivia (offset + byteCount spelling) rest).2.length < chars.length := by
  have laidOut : ∀ lexemes, lex text = .ok lexemes ↔ Layout 0 text.toList lexemes := by
    intro lexemes
    rw [lex_eq_lexAt]
    exact lexAt_eq_ok_iff
  refine ⟨laidOut, ?_, ?_⟩
  · intro lexemes lexed
    have layout := (laidOut lexemes).mp lexed
    refine ⟨layout.sorted, ?_, layout.length_le⟩
    intro lexeme member
    have stands := layout.standsIn lexeme member
    exact ⟨stands, stands.isValid⟩
  · intro offset chars token spelling rest found
    exact length_skipTrivia_lt_of_token? found _

/-- An escape, a character of two bytes, and a comment up to a line end of two
characters. -/
theorem lex_loses_nothing_comment :
    let text := "(é \"\\n\");c\r\n'x"
    let lexemes : List Lexeme :=
      [⟨.opening, 0⟩, ⟨.atom "é", 1⟩, ⟨.literal "\n", 4⟩, ⟨.closing, 8⟩,
        ⟨.quoteMark, 13⟩, ⟨.atom "x", 14⟩]
    lex text = .ok lexemes ∧ Layout 0 text.toList lexemes ∧
      lexemes.Pairwise (fun first second => first.offset < second.offset) ∧
      StandsIn text ⟨.literal "\n", 4⟩ ∧ (⟨4⟩ : String.Pos.Raw).IsValid text ∧
      token? 13 "'x".toList = .ok (.quoteMark, ['\''], ['x']) ∧
      (skipTrivia 14 ['x']).2.length < 2 := by
  intro text lexemes
  have chars : text.toList = ['(', 'é', ' ', '"', '\\', 'n', '"', ')', ';', 'c', '\r', '\n',
      '\'', 'x'] := by
    decide +kernel
  have lexed : lex text = .ok lexemes := by
    rw [lex_eq_lexAt, chars]
    with_unfolding_all rfl
  obtain ⟨laidOut, places, consumes⟩ := lex_loses_nothing text
  obtain ⟨sorted, stand, _⟩ := places lexemes lexed
  obtain ⟨stands, isValid⟩ := stand ⟨.literal "\n", 4⟩ (by decide)
  have found : token? 13 "'x".toList = .ok (.quoteMark, ['\''], ['x']) := rfl
  exact ⟨lexed, (laidOut lexemes).mp lexed, sorted, stands, isValid, found,
    consumes 13 _ _ _ _ found⟩

end EffectLisp.Token
