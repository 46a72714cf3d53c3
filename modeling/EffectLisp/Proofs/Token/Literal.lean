import EffectLisp.Proofs.Result
import EffectLisp.Proofs.Text.Piece
import EffectLisp.Proofs.Token.Failure
import EffectLisp.Proofs.Token.LineFeed

/-!
# Literals between texts

A literal is lexed alike wherever a token may begin: after a text that is lexed and does
not end inside a comment it is one token, and what follows it is lexed as if it stood
alone.  A quoted text is such a literal, whatever it holds.

At a quote that opens no literal lexing fails, and the pieces of what follows say why: no
quote stands alone among them, or the pieces before the first such quote are not all
legal.
-/

namespace EffectLisp.Token

/-- The last line of the text ends in a comment: a semicolon stands where what is in front
of it is lexed, and no line ends after it. -/
def EndsInComment (text : String) : Prop :=
  ∃ front comment : String,
    text = front ++ ";" ++ comment ∧ (∃ lexemes, lex front = .ok lexemes) ∧
      ∀ c ∈ comment.toList, endsLine c = false

/-- A line ends before a character that is no line feed only if it ends without it. -/
theorem LineEnd.of_append
    {front rest : List Char} {c : Char} (notLineFeed : c ≠ '\n')
    (lineEnd : LineEnd (front ++ c :: rest)) : LineEnd front := by
  match front with
  | [] => exact .endOfText
  | [first] =>
      cases lineEnd with
      | lineFeed => exact .lineFeed []
      | carriageReturn => exact absurd rfl notLineFeed
  | first :: second :: front =>
      cases lineEnd with
      | lineFeed => exact .lineFeed _
      | carriageReturn => exact .carriageReturn front

/-- A gap at the end of a text is one in front of a quote, or a comment ends it. -/
theorem Gap.before_quote_or_comment
    {gap : List Char} (isGap : Gap [] gap) (rest : List Char) :
    Gap ('"' :: rest) gap ∨
      ∃ front comment,
        gap = front ++ ';' :: comment ∧ Gap [] front ∧ ∀ c ∈ comment, endsLine c = false := by
  induction isGap with
  | nil => exact .inl .nil
  | @separator c gap separates _ induction =>
      rcases induction with goesOn | ⟨front, comment, rfl, before, inLine⟩
      · exact .inl (.separator separates goesOn)
      · exact .inr ⟨c :: front, comment, rfl, .separator separates before, inLine⟩
  | @comment text gap inLine lineEnd _ induction =>
      rw [List.append_nil] at lineEnd
      rcases induction with goesOn | ⟨front, comment, rfl, before, inLater⟩
      · cases lineEnd with
        | endOfText => exact .inr ⟨[], text ++ [], rfl, .nil, by simpa using inLine⟩
        | lineFeed => exact .inl (.comment inLine (.lineFeed _) goesOn)
        | carriageReturn => exact .inl (.comment inLine (.carriageReturn _) goesOn)
      · right
        have ended : LineEnd (front ++ []) := by
          rw [List.append_nil]
          exact lineEnd.of_append (by decide)
        refine ⟨';' :: (text ++ front), comment, ?_, .comment inLine ended before, inLater⟩
        rw [List.cons_append, List.append_assoc]

/-- In front of a quote the lexemes of a text are found whole, or a comment ends it. -/
theorem Layout.lexAt_append_or_comment
    {offset : Nat} {chars : List Char} {lexemes : List Lexeme}
    (layout : Layout offset chars lexemes) (rest : List Char) :
    lexAt offset (chars ++ '"' :: rest) =
        (lexAt (offset + byteCount chars) ('"' :: rest)).map (lexemes ++ ·) ∨
      ∃ front comment others,
        chars = front ++ ';' :: comment ∧ Layout offset front others ∧
          ∀ c ∈ comment, endsLine c = false := by
  induction layout with
  | @last offset gap isGap =>
      rcases isGap.before_quote_or_comment rest with
        goesOn | ⟨front, comment, same, before, inLine⟩
      · left
        rw [lexAt, goesOn.skipTrivia_eq, ← lexAt]
        cases lexAt (offset + byteCount gap) ('"' :: rest) <;> rfl
      · exact .inr ⟨front, comment, [], same, .last before, inLine⟩
  | @token offset gap spelling after token lexemes isGap spelled _ induction =>
      rcases induction with found | ⟨front, comment, others, rfl, before, inLine⟩
      · left
        have goesOn := isGap.before_token spelled (after ++ '"' :: rest)
        have spells := spells_iff.mpr (spelled.before_delimiter (c := '"') (by decide) rest)
        rw [List.append_assoc, List.append_assoc, lexAt, goesOn.skipTrivia_eq, ← lexAt,
          spells.lexAt_eq, found, byteCount_append, byteCount_append, ← Nat.add_assoc,
          ← Nat.add_assoc]
        cases lexAt (offset + byteCount gap + byteCount spelling + byteCount after)
          ('"' :: rest) <;> rfl
      · right
        have ownSpelled := spelled.of_append
        refine ⟨gap ++ (spelling ++ front), comment, _, ?_,
          .token (isGap.before_token spelled front) ownSpelled before, inLine⟩
        simp only [List.append_assoc]

section Between

variable {front : String} {lexemes : List Lexeme}

/-- A text that does not end in a comment keeps its lexemes in front of a quote. -/
theorem lexAt_append_quote
    (lexed : lex front = .ok lexemes) (outside : ¬EndsInComment front) (rest : List Char) :
    lexAt 0 (front.toList ++ '"' :: rest) =
      (lexAt front.utf8ByteSize ('"' :: rest)).map (lexemes ++ ·) := by
  have layout : Layout 0 front.toList lexemes := lexAt_eq_ok_iff.mp lexed
  rcases layout.lexAt_append_or_comment rest with
    found | ⟨before, comment, others, same, laidOut, inLine⟩
  · rwa [Nat.zero_add, ← utf8ByteSize_eq] at found
  · refine absurd ⟨String.ofList before, String.ofList comment, ?_, ⟨others, ?_⟩, ?_⟩ outside
    · rw [← String.toList_inj, same]
      simp
    · rw [lex_eq_lexAt, String.toList_ofList]
      exact lexAt_eq_ok_iff.mpr laidOut
    · rwa [String.toList_ofList]

/-- A literal between two texts is one token, and what follows it is lexed as it is alone. -/
theorem lex_append_literal
    (lexed : lex front = .ok lexemes) (outside : ¬EndsInComment front)
    {inside text : String} (unescapes : Text.Unescapes inside.toList text.toList)
    (back : String) :
    lex (front ++ "\"" ++ inside ++ "\"" ++ back) =
      (shifted (front ++ "\"" ++ inside ++ "\"").utf8ByteSize (lex back)).map
        fun later => lexemes ++ ⟨.literal text, front.utf8ByteSize⟩ :: later := by
  have spells : Spells (.literal text) ('"' :: (inside.toList ++ ['"'])) back.toList :=
    spells_iff.mpr ⟨inside.toList, rfl, unescapes⟩
  have chars : (front ++ "\"" ++ inside ++ "\"" ++ back).toList =
      front.toList ++ '"' :: ((inside.toList ++ ['"']) ++ back.toList) := by
    simp
  have count : (front ++ "\"" ++ inside ++ "\"").utf8ByteSize =
      front.utf8ByteSize + byteCount ('"' :: (inside.toList ++ ['"'])) := by
    rw [utf8ByteSize_eq, utf8ByteSize_eq, ← byteCount_append]
    simp
  have further := lexAt_shift (front ++ "\"" ++ inside ++ "\"").utf8ByteSize 0 back.toList
  rw [Nat.add_zero, count, ← lex_eq_lexAt] at further
  rw [lex_eq_lexAt, chars, lexAt_append_quote lexed outside, ← List.cons_append,
    spells.lexAt_eq, further, count]
  cases lex back <;> rfl

/-- Between two texts a quoted text is one token, whatever it holds, and keeps nothing of
them from being lexed as they are alone. -/
theorem lex_quoted_between
    (lexed : lex front = .ok lexemes) (outside : ¬EndsInComment front) (text back : String) :
    let quoted := String.ofList (Text.quote text.toList)
    lex (front ++ quoted ++ back) =
      (shifted (front ++ quoted).utf8ByteSize (lex back)).map
        fun later => lexemes ++ ⟨.literal text, front.utf8ByteSize⟩ :: later := by
  intro quoted
  let inside := String.ofList (Text.encode text.toList)
  have unescapes : Text.Unescapes inside.toList text.toList := by
    rw [String.toList_ofList]
    exact Text.unescapes_encode text.toList
  have spelled : front ++ quoted = front ++ "\"" ++ inside ++ "\"" := by
    rw [← String.toList_inj]
    simp [quoted, inside, Text.quote]
  rw [spelled]
  exact lex_append_literal lexed outside unescapes back

end Between

/-- No comment goes on after the end of a line. -/
theorem not_endsInComment_of_line (text : String) : ¬EndsInComment (text ++ "\n") := by
  rintro ⟨front, comment, same, -, inLine⟩
  have chars : text.toList ++ ['\n'] = front.toList ++ ';' :: comment.toList := by
    simpa using congrArg String.toList same
  rcases List.eq_nil_or_concat comment.toList with empty | ⟨begun, c, whole⟩
  · rw [empty] at chars
    have ends := (List.append_inj' chars rfl).2
    simp at ends
  · have split : text.toList ++ ['\n'] = (front.toList ++ ';' :: begun) ++ [c] := by
      simpa [whole] using chars
    obtain rfl := List.singleton_inj.mp (List.append_inj' split rfl).2
    have member : '\n' ∈ comment.toList := by simp [whole]
    exact absurd (inLine '\n' member) (by decide)

theorem lex_quoted_between_mark :
    let front := "(é ;c\n"
    lex front = .ok [⟨.opening, 0⟩, ⟨.atom "é", 1⟩] ∧ ¬EndsInComment front ∧
      lex (front ++ "\"\\\");\\\\\"" ++ "'x") =
        .ok [⟨.opening, 0⟩, ⟨.atom "é", 1⟩, ⟨.literal "\");\\", 7⟩, ⟨.quoteMark, 15⟩,
          ⟨.atom "x", 16⟩] := by
  intro front
  have lexed : lex front = .ok [⟨.opening, 0⟩, ⟨.atom "é", 1⟩] :=
    eq_ok_of_toOption (by decide +kernel)
  have later : lex "'x" = .ok [⟨.quoteMark, 0⟩, ⟨.atom "x", 1⟩] :=
    eq_ok_of_toOption (by decide +kernel)
  have outside : ¬EndsInComment front := not_endsInComment_of_line "(é ;c"
  have between := lex_quoted_between lexed outside "\");\\" "'x"
  rw [later] at between
  exact ⟨lexed, outside, between⟩

/-- What lexing fails at, if a quote stands there, opens no literal. -/
theorem refused_quote_of_lex
    {front rest : String} {error : LexError} (failed : lex (front ++ "\"" ++ rest) = .error error)
    (place : error.offset = front.utf8ByteSize) :
    (∀ inside text after, Text.Unescapes inside text → rest.toList ≠ inside ++ '"' :: after) ∧
      error = refusal front.utf8ByteSize rest.toList := by
  rw [lex_eq_lexAt] at failed
  obtain ⟨c, tail, reaches, refused, same⟩ := exists_refused_of_lexAt failed
  obtain ⟨before, whole, count⟩ := reaches.exists_front
  have split : before ++ c :: tail = front.toList ++ '"' :: rest.toList := by
    rw [← whole]
    simp
  have bytes : byteCount before = byteCount front.toList := by
    rw [← utf8ByteSize_eq, ← place, count, Nat.zero_add]
  obtain ⟨rfl, tails⟩ := append_inj_of_byteCount split bytes
  obtain ⟨rfl, rfl⟩ := List.cons.inj tails
  rw [place] at same
  cases refused with
  | quote missing => exact ⟨missing, same⟩
  | blank _ blank => exact absurd blank (by decide)

theorem refusal_eq_unterminatedString_iff {offset : Nat} {following : List Char} :
    refusal offset following = .unterminatedString offset ↔
      .plain '"' ∉ Text.pieces following := by
  rw [refusal, ← Text.isSome_untilQuote_iff]
  split
  · next quoted => simp [quoted]
  · next unquoted => simp [unquoted]

/-- An error at a quote says whether another quote stands alone after it, and if one does,
then an illegal pair stands before the first.  If only legal pairs stand before it, then the
literal is lexed as what it stands for. -/
theorem lex_classifies_literals (text : String) :
    (∀ error front rest, lex text = .error error → text = front ++ "\"" ++ rest →
      error.offset = front.utf8ByteSize →
      (error = .unterminatedString front.utf8ByteSize ↔
        .plain '"' ∉ Text.pieces rest.toList) ∧
      (.plain '"' ∈ Text.pieces rest.toList →
        error = .invalidEscape front.utf8ByteSize ∧
        ∃ before after letter,
          Text.pieces rest.toList = before ++ .plain '"' :: after ∧ .plain '"' ∉ before ∧
            .pair letter ∈ before ∧ letter ∉ Text.escapeLetters)) ∧
    ∀ front rest lexemes before after,
      text = front ++ "\"" ++ rest → lex front = .ok lexemes → ¬EndsInComment front →
      Text.pieces rest.toList = before ++ .plain '"' :: after → .plain '"' ∉ before →
      (∀ letter, .pair letter ∈ before → letter ∈ Text.escapeLetters) →
      lex text =
        (shifted (front ++ "\"" ++ Text.Piece.spelling before ++ "\"").utf8ByteSize
          (lex (Text.Piece.spelling after))).map
        fun later =>
          lexemes ++ ⟨.literal (Text.Piece.content before), front.utf8ByteSize⟩ :: later := by
  constructor
  · intro error front rest failed whole place
    rw [whole] at failed
    obtain ⟨missing, rfl⟩ := refused_quote_of_lex failed place
    refine ⟨refusal_eq_unterminatedString_iff, ?_⟩
    intro quoted
    obtain ⟨before, after, divided, first⟩ := List.eq_append_cons_of_mem quoted
    obtain ⟨letter, member, illegal⟩ := Text.exists_illegal_of_pieces missing divided first
    refine ⟨?_, before, after, letter, divided, first, member, illegal⟩
    rw [refusal, if_pos ((Text.isSome_untilQuote_iff _).mpr quoted)]
  · intro front rest lexemes before after whole lexed outside divided first legal
    have unescapes : Text.Unescapes (Text.Piece.spelling before).toList
        (Text.Piece.content before).toList := by
      rw [Text.Piece.spelling, Text.Piece.content, String.toList_ofList, String.toList_ofList]
      exact Text.unescapes_of_pieces divided first legal
    have spelled : rest = Text.Piece.spelling before ++ "\"" ++ Text.Piece.spelling after := by
      rw [← String.toList_inj, Text.eq_append_of_pieces divided]
      simp [Text.Piece.spelling]
    have found := lex_append_literal lexed outside unescapes (Text.Piece.spelling after)
    rw [whole, spelled]
    simpa only [String.append_assoc] using found

/-- An illegal pair after an escaped quote, and the literal without it. -/
theorem lex_classifies_literals_pairs :
    let front := "(;c\n"
    let illegal : List Text.Piece := [.pair '"', .pair 'q', .plain '"', .plain 'b']
    let legal : List Text.Piece := [.pair '"', .plain '"', .plain 'b']
    Text.pieces "\\\"\\q\"b".toList = illegal ∧ Text.pieces "\\\"\"b".toList = legal ∧
      lex (front ++ "\"" ++ "\\\"\\q\"b") = .error (.invalidEscape 4) ∧
      (∃ before after letter, illegal = before ++ .plain '"' :: after ∧ .plain '"' ∉ before ∧
        .pair letter ∈ before ∧ letter ∉ Text.escapeLetters) ∧
      lex (front ++ "\"" ++ "\\\"\"b") =
        .ok [⟨.opening, 0⟩, ⟨.literal "\"", 4⟩, ⟨.atom "b", 8⟩] := by
  intro front illegal legal
  have lexed : lex front = .ok [⟨.opening, 0⟩] := eq_ok_of_toOption (by decide +kernel)
  have outside : ¬EndsInComment front := not_endsInComment_of_line "(;c"
  have illegalPieces : Text.pieces "\\\"\\q\"b".toList = illegal := by decide +kernel
  have legalPieces : Text.pieces "\\\"\"b".toList = legal := by decide +kernel
  have failed : lex (front ++ "\"" ++ "\\\"\\q\"b") = .error (.invalidEscape 4) := by
    have chars : (front ++ "\"" ++ "\\\"\\q\"b").toList =
        ['(', ';', 'c', '\n', '"', '\\', '"', '\\', 'q', '"', 'b'] := by
      decide +kernel
    rw [lex_eq_lexAt, chars]
    with_unfolding_all rfl
  have classified := (lex_classifies_literals _).1 _ front _ failed rfl rfl
  rw [illegalPieces] at classified
  have later : lex "b" = .ok [⟨.atom "b", 0⟩] := eq_ok_of_toOption (by decide +kernel)
  have found := (lex_classifies_literals _).2 front "\\\"\"b" _ [.pair '"'] [.plain 'b'] rfl
    lexed outside legalPieces (by decide) (by simp [Text.escapeLetters])
  have spelling : Text.Piece.spelling [.plain 'b'] = "b" := rfl
  rw [spelling, later] at found
  exact ⟨illegalPieces, legalPieces, failed, (classified.2 (by decide)).2, found⟩

end EffectLisp.Token
