import EffectLisp.Proofs.Token.Layout

/-!
# Where lexing fails

Lexing fails at a place up to which the text is gaps and tokens by turns, and where
something stands that is neither.  `Refused` says what that can be: a quote that opens
no literal, a blank that separates no tokens, or a comment that meets a lone carriage
return.  What is reported there depends only on whether a quote follows.

So a text whose blanks are all separators, and without lone carriage returns, is refused
for its literals only.
-/

namespace EffectLisp

/-- The byte offset that an error is reported for. -/
def LexError.offset : LexError → Nat
  | .unterminatedString offset => offset
  | .invalidEscape offset => offset

namespace Token

/-- The characters from a byte offset on are gaps and tokens by turns up to a place,
and `rest` from there on. -/
inductive Reaches (place : Nat) (rest : List Char) : Nat → List Char → Prop where
  | gap {offset : Nat} {gap : List Char} :
      Gap rest gap →
      place = offset + byteCount gap →
      Reaches place rest offset (gap ++ rest)
  | token {offset : Nat} {gap spelling after : List Char} {token : Token} :
      Gap (spelling ++ after) gap →
      token.SpelledAs spelling after →
      Reaches place rest (offset + byteCount gap + byteCount spelling) after →
      Reaches place rest offset (gap ++ (spelling ++ after))

/-- What is neither trivia nor begins a token. -/
inductive Refused : List Char → Prop where
  | quote {chars : List Char} :
      (∀ inside text rest, Text.Unescapes inside text → chars ≠ inside ++ '"' :: rest) →
      Refused ('"' :: chars)
  | blank {c : Char} (rest : List Char) :
      Text.isBlank c = true →
      isSeparator c = false →
      Refused (c :: rest)
  | comment {text rest : List Char} :
      (∀ c ∈ text, endsLine c = false) →
      (∀ tail, rest ≠ '\n' :: tail) →
      Refused (';' :: (text ++ '\r' :: rest))

/-- The error for a refused character, by whether a quote that no backslash escapes
follows it. -/
def refusal (offset : Nat) (following : List Char) : LexError :=
  if (Text.untilQuote following).isSome then .invalidEscape offset
  else .unterminatedString offset

@[simp] theorem offset_refusal (offset : Nat) (following : List Char) :
    (refusal offset following).offset = offset := by
  unfold refusal
  split <;> rfl

theorem comment?_eq_none_iff {chars : List Char} :
    comment? chars = none ↔
      ∃ text rest, chars = text ++ '\r' :: rest ∧ (∀ c ∈ text, endsLine c = false) ∧
        ∀ tail, rest ≠ '\n' :: tail := by
  constructor
  · intro missing
    have whole := List.takeWhile_append_dropWhile (p := (!endsLine ·)) (l := chars)
    have inLine : ∀ c ∈ chars.takeWhile (!endsLine ·), endsLine c = false := by
      intro c member
      simpa using List.all_eq_true.mp List.all_takeWhile c member
    unfold comment? at missing
    split at missing
    · cases missing
    · next rest lone ends =>
        refine ⟨chars.takeWhile (!endsLine ·), rest, ?_, inLine, ?_⟩
        · rw [← ends, whole]
        · rintro tail rfl
          exact lone tail rfl
    · cases missing
  · rintro ⟨text, rest, rfl, inLine, lone⟩
    have plain : ∀ c ∈ text, (!endsLine c) = true := by
      intro c member
      simp [inLine c member]
    have stops : Text.StopsAt (!endsLine ·) ('\r' :: rest) :=
      Text.stopsAt_cons (by decide) rest
    rw [comment?, Text.dropWhile_append_of_stopsAt plain stops]
    split
    · next tail ends =>
        cases ends
        exact absurd rfl (lone _)
    · rfl
    · next noReturn => exact absurd rfl (noReturn rest)

section Skipping

theorem skipTrivia_of_comment?_eq_none
    {chars : List Char} (missing : comment? chars = none) (offset : Nat) :
    skipTrivia offset (';' :: chars) = (offset, ';' :: chars) := by
  rw [skipTrivia, if_neg (by decide), if_pos rfl]
  split
  · next found =>
      rw [missing] at found
      cases found
  · rfl

/-- Nothing is left to skip after skipping. -/
theorem skipTrivia_skipTrivia (offset : Nat) (chars : List Char) :
    skipTrivia (skipTrivia offset chars).1 (skipTrivia offset chars).2 =
      skipTrivia offset chars := by
  fun_induction skipTrivia offset chars with
  | case1 offset => rw [skipTrivia]
  | case2 offset c chars separates induction => exact induction
  | case3 offset chars text rest found separates induction => exact induction
  | case4 offset chars missing separates =>
      exact skipTrivia_of_comment?_eq_none missing offset
  | case5 offset c chars separates noComment =>
      exact skipTrivia_of_plain (by simpa using separates) noComment offset chars

theorem isSeparator_of_skipTrivia_eq
    {offset : Nat} {c : Char} {chars : List Char}
    (nothing : skipTrivia offset (c :: chars) = (offset, c :: chars)) :
    isSeparator c = false := by
  rw [← Bool.not_eq_true]
  intro separates
  have shorter := length_skipTrivia_le (offset + c.utf8Size) chars
  rw [← skipTrivia_separator separates, nothing, List.length_cons] at shorter
  omega

theorem comment?_of_skipTrivia_eq
    {offset : Nat} {chars : List Char}
    (nothing : skipTrivia offset (';' :: chars) = (offset, ';' :: chars)) :
    comment? chars = none := by
  cases found : comment? chars with
  | none => rfl
  | some parts =>
      obtain ⟨text, rest⟩ := parts
      have shorter := length_skipTrivia_le (offset + ';'.utf8Size + byteCount text) rest
      rw [← skipTrivia_comment found, nothing, comment?_eq_some found, List.length_cons,
        List.length_append] at shorter
      omega

theorem Refused.skipTrivia_eq
    {chars : List Char} (refused : Refused chars) (offset : Nat) :
    skipTrivia offset chars = (offset, chars) := by
  cases refused with
  | quote => exact skipTrivia_of_plain (by decide) (by decide) offset _
  | blank rest blank plain =>
      refine skipTrivia_of_plain plain ?_ offset rest
      rintro rfl
      exact absurd blank (by decide)
  | comment inLine lone =>
      exact skipTrivia_of_comment?_eq_none
        (comment?_eq_none_iff.mpr ⟨_, _, rfl, inLine, lone⟩) offset

end Skipping

section Refusing

theorem literal?_eq_refusal
    {chars : List Char}
    (missing : ∀ inside text rest, Text.Unescapes inside text →
      chars ≠ inside ++ '"' :: rest)
    (offset : Nat) :
    literal? offset chars = .error (refusal offset chars) := by
  unfold literal? refusal
  cases split : Text.untilQuote chars with
  | none => rfl
  | some parts =>
      obtain ⟨inside, rest⟩ := parts
      have whole := Text.untilQuote_eq_some split
      cases decoded : Text.decode? inside with
      | none => simp [decoded]
      | some text =>
          rw [whole] at split
          exact absurd whole
            (missing inside text rest ((Text.unescapes_iff rest).mpr ⟨split, decoded⟩))

/-- A delimiter that is no parenthesis and no mark is a blank or a semicolon, and begins
no token. -/
theorem token?_eq_refusal
    {c : Char} (delimits : Text.isBlank c = true ∨ c = ';') (offset : Nat)
    (chars : List Char) :
    token? offset (c :: chars) = .error (refusal offset chars) := by
  have delimiter : isDelimiter c = true := by
    rcases delimits with blank | rfl
    · simp [isDelimiter, blank]
    · decide
  have ne (d : Char) (plain : Text.isBlank d = false) (noComment : d ≠ ';') : c ≠ d := by
    rintro rfl
    rcases delimits with blank | rfl
    · rw [plain] at blank
      cases blank
    · exact noComment rfl
  rw [token?, if_pos delimiter, refusal]
  · split <;> rfl
  · exact ne '(' (by decide) (by decide)
  · exact ne ')' (by decide) (by decide)
  · exact ne '\'' (by decide) (by decide)
  · exact ne '"' (by decide) (by decide)

theorem Refused.token?_eq
    {c : Char} {chars : List Char} (refused : Refused (c :: chars)) (offset : Nat) :
    token? offset (c :: chars) = .error (refusal offset chars) := by
  cases refused with
  | quote missing =>
      have failed := literal?_eq_refusal missing offset
      simp [token?, failed, bind, Except.bind]
  | blank _ blank _ => exact token?_eq_refusal (.inl blank) offset chars
  | comment => exact token?_eq_refusal (.inr rfl) offset _

/-- Where no token is found though nothing is left to skip, what stands there is
refused. -/
theorem Refused.of_token?
    {offset : Nat} {c : Char} {chars : List Char} {error : LexError}
    (nothing : skipTrivia offset (c :: chars) = (offset, c :: chars))
    (failed : token? offset (c :: chars) = .error error) :
    Refused (c :: chars) := by
  by_cases quote : c = '"'
  · subst quote
    refine .quote ?_
    rintro inside text rest unescapes rfl
    have spells : Spells (.literal (String.ofList text)) ('"' :: (inside ++ ['"'])) rest :=
      spells_iff.mpr ⟨inside, rfl, by rwa [String.toList_ofList]⟩
    have found := spells.token?_eq offset
    rw [List.cons_append, List.append_assoc, List.singleton_append, failed] at found
    cases found
  · unfold token? at failed
    split at failed
    · next empty => cases empty
    · cases failed
    · cases failed
    · cases failed
    · next same =>
        cases same
        exact absurd rfl quote
    · next d tail notOpening notClosing notMark notQuote same =>
        cases same
        split at failed
        · next delimiter =>
            simp only [isDelimiter, Bool.or_eq_true, decide_eq_true_eq, or_assoc]
              at delimiter
            rcases delimiter with blank | opening | closing | mark | _ | rfl
            · exact .blank chars blank (isSeparator_of_skipTrivia_eq nothing)
            · exact (notOpening opening).elim
            · exact (notClosing closing).elim
            · exact (notMark mark).elim
            · contradiction
            · obtain ⟨text, rest, rfl, inLine, lone⟩ :=
                comment?_eq_none_iff.mp (comment?_of_skipTrivia_eq nothing)
              exact .comment inLine lone
        · cases failed

end Refusing

section Failing

/-- Where lexing fails, something refused stands. -/
theorem exists_refused_of_lexAt
    {offset : Nat} {chars : List Char} {error : LexError}
    (failed : lexAt offset chars = .error error) :
    ∃ c rest, Reaches error.offset (c :: rest) offset chars ∧ Refused (c :: rest) ∧
      error = refusal error.offset rest := by
  obtain ⟨gap, whole, count, isGap⟩ := exists_gap offset chars
  have nothing := skipTrivia_skipTrivia offset chars
  have noLonger := length_skipTrivia_le offset chars
  rw [lexAt] at failed
  generalize skipTrivia offset chars = skipped at *
  obtain ⟨place, left⟩ := skipped
  cases left with
  | nil =>
      rw [lexFrom_nil] at failed
      cases failed
  | cons c tail =>
      cases found : token? place (c :: tail) with
      | error other =>
          rw [lexFrom_error (List.cons_ne_nil c tail) found] at failed
          cases failed
          have refused := Refused.of_token? nothing found
          rw [refused.token?_eq] at found
          cases found
          rw [offset_refusal, whole]
          exact ⟨c, tail, .gap isGap count, refused, rfl⟩
      | ok parts =>
          obtain ⟨token, spelling, rest⟩ := parts
          obtain ⟨split, spells⟩ := Spells.of_token? found
          have nonempty := List.length_pos_iff.mpr spells.nonempty
          have shorter : rest.length < chars.length := by
            simp only [split, List.length_append] at noLonger
            omega
          simp only [split] at failed whole isGap
          rw [spells.lexFrom_eq, lexFrom_eq_map, ← lexAt] at failed
          cases later : lexAt (place + byteCount spelling) rest with
          | ok lexemes =>
              rw [later] at failed
              cases failed
          | error other =>
              rw [later] at failed
              cases failed
              obtain ⟨d, after, reaches, refused, same⟩ := exists_refused_of_lexAt later
              refine ⟨d, after, ?_, refused, same⟩
              simp only at count
              rw [count] at reaches
              rw [whole]
              exact .token isGap (spells_iff.mp spells) reaches
termination_by chars.length
decreasing_by exact shorter

/-- Where something refused stands, lexing fails. -/
theorem Reaches.lexAt_eq
    {place offset : Nat} {c : Char} {rest chars : List Char}
    (reaches : Reaches place (c :: rest) offset chars) (refused : Refused (c :: rest)) :
    lexAt offset chars = .error (refusal place rest) := by
  induction reaches with
  | gap isGap count =>
      rw [lexAt, isGap.skipTrivia_eq, refused.skipTrivia_eq, ← count]
      exact lexFrom_error (List.cons_ne_nil c rest) (refused.token?_eq place) []
  | token isGap spelled _ induction =>
      rw [lexAt, isGap.skipTrivia_eq, ← lexAt, (spells_iff.mpr spelled).lexAt_eq, induction]
      rfl

theorem lexAt_eq_error_iff
    {offset : Nat} {chars : List Char} {error : LexError} :
    lexAt offset chars = .error error ↔
      ∃ c rest, Reaches error.offset (c :: rest) offset chars ∧ Refused (c :: rest) ∧
        error = refusal error.offset rest := by
  constructor
  · exact exists_refused_of_lexAt
  · rintro ⟨c, rest, reaches, refused, same⟩
    rw [reaches.lexAt_eq refused, ← same]

end Failing

section Characters

/-- The character begins so many bytes into the text. -/
def StandsAt (text : String) (offset : Nat) (c : Char) : Prop :=
  ∃ front rest, text.toList = front ++ c :: rest ∧ offset = byteCount front

/-- A text is split in one way only after so many bytes. -/
theorem append_inj_of_byteCount
    {front other rest after : List Char} (same : front ++ rest = other ++ after)
    (count : byteCount front = byteCount other) : front = other ∧ rest = after := by
  induction front generalizing other with
  | nil =>
      cases other with
      | nil => exact ⟨rfl, same⟩
      | cons c other =>
          have positive := Char.utf8Size_pos c
          rw [byteCount_nil, byteCount_cons] at count
          omega
  | cons c front induction =>
      cases other with
      | nil =>
          have positive := Char.utf8Size_pos c
          rw [byteCount_nil, byteCount_cons] at count
          omega
      | cons d other =>
          rw [List.cons_append, List.cons_append, List.cons.injEq] at same
          obtain ⟨rfl, same⟩ := same
          rw [byteCount_cons, byteCount_cons] at count
          obtain ⟨rfl, rfl⟩ := induction same (by omega)
          exact ⟨rfl, rfl⟩

theorem StandsAt.unique
    {text : String} {offset : Nat} {c d : Char}
    (first : StandsAt text offset c) (second : StandsAt text offset d) : c = d := by
  obtain ⟨front, rest, whole, count⟩ := first
  obtain ⟨other, after, again, recount⟩ := second
  have split := append_inj_of_byteCount (whole.symm.trans again) (count.symm.trans recount)
  exact (List.cons.inj split.2).1

theorem Reaches.exists_front
    {place offset : Nat} {rest chars : List Char}
    (reaches : Reaches place rest offset chars) :
    ∃ front, chars = front ++ rest ∧ place = offset + byteCount front := by
  induction reaches with
  | gap _ count => exact ⟨_, rfl, count⟩
  | @token offset gap spelling _ _ _ _ _ induction =>
      obtain ⟨front, rfl, count⟩ := induction
      refine ⟨gap ++ (spelling ++ front), ?_, ?_⟩
      · simp only [List.append_assoc]
      · rw [count, byteCount_append, byteCount_append]
        simp only [Nat.add_assoc]

theorem Reaches.standsAt
    {text : String} {place : Nat} {c : Char} {rest : List Char}
    (reaches : Reaches place (c :: rest) 0 text.toList) : StandsAt text place c := by
  obtain ⟨front, whole, count⟩ := reaches.exists_front
  exact ⟨front, rest, whole, by rw [count, Nat.zero_add]⟩

/-- Of the characters that are refused only a quote is left if every blank separates
and every carriage return stands before a line feed. -/
theorem Refused.eq_quote
    {front rest : List Char} {c : Char} (refused : Refused (c :: rest))
    (blanks : ∀ d ∈ front ++ c :: rest, Text.isBlank d = true → isSeparator d = true)
    (returns : ∀ before after, front ++ c :: rest = before ++ '\r' :: after →
      ∃ tail, after = '\n' :: tail) :
    c = '"' := by
  cases refused with
  | quote => rfl
  | blank _ blank plain =>
      rw [blanks c (by simp) blank] at plain
      cases plain
  | @comment text after inLine lone =>
      obtain ⟨tail, follows⟩ := returns (front ++ ';' :: text) after (by simp)
      exact absurd follows (lone tail)

end Characters

/-- A text fails to be lexed if and only if it is gaps and tokens by turns up to
something refused, and the error says where that stands.  So it fails at quotes only if
and only if no blank and no comment is refused in it, as when every blank separates and
every carriage return stands before a line feed. -/
theorem lex_fails_at_refused (text : String) :
    (∀ error, lex text = .error error ↔
      ∃ c rest, Reaches error.offset (c :: rest) 0 text.toList ∧ Refused (c :: rest) ∧
        error = refusal error.offset rest) ∧
    ((∀ error, lex text = .error error → StandsAt text error.offset '"') ↔
      ∀ place c rest, Reaches place (c :: rest) 0 text.toList → Refused (c :: rest) →
        c = '"') ∧
    ((∀ c ∈ text.toList, Text.isBlank c = true → isSeparator c = true) →
      (∀ front rest, text.toList = front ++ '\r' :: rest → ∃ tail, rest = '\n' :: tail) →
      ∀ error, lex text = .error error →
        StandsAt text error.offset '"' ∧
          ∃ rest, Reaches error.offset ('"' :: rest) 0 text.toList ∧
            ∀ inside content after, Text.Unescapes inside content →
              rest ≠ inside ++ '"' :: after) := by
  have fails : ∀ error, lex text = .error error ↔
      ∃ c rest, Reaches error.offset (c :: rest) 0 text.toList ∧ Refused (c :: rest) ∧
        error = refusal error.offset rest := by
    intro error
    rw [lex_eq_lexAt]
    exact lexAt_eq_error_iff
  refine ⟨fails, ?_, ?_⟩
  · constructor
    · intro quotes place c rest reaches refused
      have failed := (fails (refusal place rest)).mpr ⟨c, rest, by
        rw [offset_refusal]
        exact ⟨reaches, refused, rfl⟩⟩
      have quote := quotes _ failed
      rw [offset_refusal] at quote
      exact reaches.standsAt.unique quote
    · intro quotes error failed
      obtain ⟨c, rest, reaches, refused, -⟩ := (fails error).mp failed
      rw [← quotes error.offset c rest reaches refused]
      exact reaches.standsAt
  · intro blanks returns error failed
    obtain ⟨c, rest, reaches, refused, -⟩ := (fails error).mp failed
    obtain ⟨front, whole, -⟩ := reaches.exists_front
    rw [whole] at blanks returns
    obtain rfl := refused.eq_quote blanks returns
    refine ⟨reaches.standsAt, rest, reaches, ?_⟩
    cases refused with
    | quote missing => exact missing
    | blank _ blank _ => exact absurd blank (by decide)

/-- An illegal pair in the literal after a comment. -/
theorem lex_fails_at_refused_literal :
    let text := "(é;c\n\"\\q\""
    lex text = .error (.invalidEscape 6) ∧ StandsAt text 6 '"' ∧
      ∃ rest, Reaches 6 ('"' :: rest) 0 text.toList := by
  intro text
  have chars : text.toList = ['(', 'é', ';', 'c', '\n', '"', '\\', 'q', '"'] := by
    decide +kernel
  have failed : lex text = .error (.invalidEscape 6) := by
    rw [lex_eq_lexAt, chars]
    with_unfolding_all rfl
  have blanks : ∀ c ∈ text.toList, Text.isBlank c = true → isSeparator c = true := by
    have plain : text.toList.all (fun c => !Text.isBlank c || isSeparator c) = true := by
      rw [chars]
      decide
    intro c member blank
    have separates := List.all_eq_true.mp plain c member
    rwa [blank] at separates
  have returns : ∀ front rest, text.toList = front ++ '\r' :: rest →
      ∃ tail, rest = '\n' :: tail := by
    intro front rest whole
    have member : '\r' ∈ text.toList := whole ▸ List.mem_append_right _ List.mem_cons_self
    rw [chars] at member
    exact absurd member (by decide)
  obtain ⟨stands, rest, reaches, -⟩ :=
    (lex_fails_at_refused text).2.2 blanks returns _ failed
  exact ⟨failed, stands, rest, reaches⟩

/-- A blank of Unicode that is no separator, and a comment that ends with a carriage
return, are reported as literals without an end. -/
theorem lex_fails_outside_literals :
    lex "a\u00a0b" = .error (.unterminatedString 1) ∧ ¬StandsAt "a\u00a0b" 1 '"' ∧
      lex ";c\r" = .error (.unterminatedString 0) ∧ ¬StandsAt ";c\r" 0 '"' := by
  have blank : StandsAt "a\u00a0b" 1 '\u00a0' := ⟨['a'], ['b'], by decide +kernel, rfl⟩
  have comment : StandsAt ";c\r" 0 ';' := ⟨[], ['c', '\r'], by decide +kernel, rfl⟩
  refine ⟨?_, ?_, ?_, ?_⟩
  · have chars : "a\u00a0b".toList = ['a', '\u00a0', 'b'] := by decide +kernel
    rw [lex_eq_lexAt, chars]
    with_unfolding_all rfl
  · intro quote
    exact absurd (blank.unique quote) (by decide)
  · have chars : ";c\r".toList = [';', 'c', '\r'] := by decide +kernel
    rw [lex_eq_lexAt, chars]
    with_unfolding_all rfl
  · intro quote
    exact absurd (comment.unique quote) (by decide)

end Token

end EffectLisp
