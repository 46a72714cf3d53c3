import EffectLisp.Text.Quoted

/-!
# Literals of a text

A literal's inside stands for a text character by character.  What stands for a text
is found whole between its quotes, whatever follows, and resolves to the text, and
`encode` writes such an inside for every text.
-/

namespace EffectLisp.Text

/-- A character is written as itself or as an escape pair that means it. -/
theorem escape_cases (c : Char) :
    (escape c = [c] ∧ c ≠ '"' ∧ c ≠ '\\') ∨
      ∃ letter, escape c = ['\\', letter] ∧ escapeMeaning? letter = some c := by
  unfold escape
  split
  · exact .inr ⟨_, rfl, rfl⟩
  · exact .inr ⟨_, rfl, rfl⟩
  · exact .inr ⟨_, rfl, rfl⟩
  · exact .inr ⟨_, rfl, rfl⟩
  · exact .inr ⟨_, rfl, rfl⟩
  · next notQuote notBackslash _ _ _ => exact .inl ⟨rfl, notQuote, notBackslash⟩

theorem untilQuoteFrom_cons
    {c : Char} (notQuote : c ≠ '"') (notBackslash : c ≠ '\\')
    (seen rest : List Char) :
    untilQuoteFrom seen (c :: rest) = untilQuoteFrom (c :: seen) rest := by
  rw [untilQuoteFrom]
  · exact notQuote
  · rintro escaped tail rfl
    exact absurd rfl notBackslash

theorem decodeFrom_cons
    {c : Char} (notBackslash : c ≠ '\\') (done inside : List Char) :
    decodeFrom done (c :: inside) = decodeFrom (c :: done) inside := by
  rw [decodeFrom, if_neg notBackslash]
  rintro letter tail rfl
  exact absurd rfl notBackslash

/-- The inside of a literal and the text it stands for: no quote stands in it but in
an escape pair, and every escape pair has a meaning. -/
inductive Unescapes : List Char → List Char → Prop where
  | nil : Unescapes [] []
  | plain {c : Char} {inside text : List Char} :
      c ≠ '"' → c ≠ '\\' →
      Unescapes inside text →
      Unescapes (c :: inside) (c :: text)
  | pair {letter c : Char} {inside text : List Char} :
      escapeMeaning? letter = some c →
      Unescapes inside text →
      Unescapes ('\\' :: letter :: inside) (c :: text)

theorem Unescapes.untilQuoteFrom_eq
    {inside text : List Char} (unescapes : Unescapes inside text)
    (seen rest : List Char) :
    untilQuoteFrom seen (inside ++ '"' :: rest) = some (seen.reverse ++ inside, rest) := by
  induction unescapes generalizing seen with
  | nil => simp [untilQuoteFrom]
  | plain notQuote notBackslash _ induction =>
      rw [List.cons_append, untilQuoteFrom_cons notQuote notBackslash, induction]
      simp
  | pair meaning _ induction =>
      rw [List.cons_append, List.cons_append, untilQuoteFrom, induction]
      simp

theorem Unescapes.decodeFrom_eq
    {inside text : List Char} (unescapes : Unescapes inside text) (done : List Char) :
    decodeFrom done inside = some (done.reverse ++ text) := by
  induction unescapes generalizing done with
  | nil => simp [decodeFrom]
  | plain notQuote notBackslash _ induction =>
      rw [decodeFrom_cons notBackslash, induction]
      simp
  | pair meaning _ induction =>
      rw [decodeFrom, meaning]
      simp [induction]

theorem Unescapes.of_decodeFrom
    {seen done inside rest whole : List Char}
    (ends : untilQuoteFrom seen (inside ++ '"' :: rest) =
      some (seen.reverse ++ inside, rest))
    (decoded : decodeFrom done inside = some whole) :
    ∃ text, whole = done.reverse ++ text ∧ Unescapes inside text := by
  fun_induction decodeFrom done inside generalizing seen with
  | case1 done =>
      cases decoded
      exact ⟨[], by simp, .nil⟩
  | case2 done letter inside c meaning induction =>
      rw [List.cons_append, List.cons_append, untilQuoteFrom] at ends
      have later : untilQuoteFrom (letter :: '\\' :: seen) (inside ++ '"' :: rest) =
          some ((letter :: '\\' :: seen).reverse ++ inside, rest) := by
        simpa using ends
      obtain ⟨text, rfl, unescapes⟩ := induction later decoded
      exact ⟨c :: text, by simp, .pair meaning unescapes⟩
  | case3 => cases decoded
  | case4 => cases decoded
  | case5 done c inside _ notBackslash induction =>
      have notQuote : c ≠ '"' := by
        rintro rfl
        simp [untilQuoteFrom] at ends
      rw [List.cons_append, untilQuoteFrom_cons notQuote notBackslash] at ends
      have later : untilQuoteFrom (c :: seen) (inside ++ '"' :: rest) =
          some ((c :: seen).reverse ++ inside, rest) := by
        simpa using ends
      obtain ⟨text, rfl, unescapes⟩ := induction later decoded
      exact ⟨c :: text, by simp, .plain notQuote notBackslash unescapes⟩

/-- What ends at the first quote and resolves to a text is the inside of a literal that
stands for the text. -/
theorem unescapes_iff {inside text : List Char} (rest : List Char) :
    Unescapes inside text ↔
      untilQuote (inside ++ '"' :: rest) = some (inside, rest) ∧
        decode? inside = some text := by
  constructor
  · intro unescapes
    exact ⟨unescapes.untilQuoteFrom_eq [] rest, unescapes.decodeFrom_eq []⟩
  · rintro ⟨ends, decoded⟩
    obtain ⟨_, rfl, unescapes⟩ := Unescapes.of_decodeFrom ends decoded
    exact unescapes

theorem unescapes_encode (text : List Char) : Unescapes (encode text) text := by
  induction text with
  | nil => exact .nil
  | cons c text induction =>
      rw [encode_cons]
      rcases escape_cases c with
        ⟨written, notQuote, notBackslash⟩ | ⟨letter, written, meaning⟩
      · rw [written]
        exact .plain notQuote notBackslash induction
      · rw [written]
        exact .pair meaning induction

/-- The closing quote of a written literal is the first that no backslash
escapes. -/
theorem untilQuote_encode (text rest : List Char) :
    untilQuote (encode text ++ '"' :: rest) = some (encode text, rest) :=
  (unescapes_encode text).untilQuoteFrom_eq [] rest

theorem decode?_encode (text : List Char) :
    decode? (encode text) = some text :=
  (unescapes_encode text).decodeFrom_eq []

end EffectLisp.Text
