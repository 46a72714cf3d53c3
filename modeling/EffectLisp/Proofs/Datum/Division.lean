import EffectLisp.Proofs.Datum.Parentheses
import EffectLisp.Proofs.Token.LineFeed

/-!
# Rows of data put together and divided

Two rows of data in a row are a row of data, so texts joined by a line feed are read as
the data of one and then of the other.  Where a row of data is divided, the first part
opens no fewer lists than it closes; and if it closes them all and does not end in a
quote mark, then no datum is cut and both parts are rows of data.
-/

namespace EffectLisp.Datum

/-- The last of the lexemes is a quote mark. -/
def EndsInQuoteMark (lexemes : List Lexeme) : Prop :=
  ∃ front offset, lexemes = front ++ [⟨.quoteMark, offset⟩]

theorem EndsInQuoteMark.append_left
    {lexemes : List Lexeme} (quotes : EndsInQuoteMark lexemes) (front : List Lexeme) :
    EndsInQuoteMark (front ++ lexemes) := by
  obtain ⟨others, offset, rfl⟩ := quotes
  exact ⟨front ++ others, offset, by rw [List.append_assoc]⟩

theorem DerivesItems.append
    {depth : Nat} {front back : List Lexeme} {vs ws : List Value}
    (first : DerivesItems depth front vs) (second : DerivesItems depth back ws) :
    DerivesItems depth (front ++ back) (vs ++ ws) := by
  induction vs generalizing front with
  | nil =>
      cases first
      exact second
  | cons v vs induction =>
      cases first with
      | cons datum items =>
          rw [List.append_assoc]
          exact .cons datum (induction items)

theorem DerivesItems.eq_nil
    {depth : Nat} {vs : List Value} (derives : DerivesItems depth [] vs) : vs = [] := by
  generalize none : ([] : List Lexeme) = lexemes at derives
  cases derives with
  | nil => rfl
  | cons datum _ => exact absurd (List.append_eq_nil_iff.mp none.symm).1 datum.ne_nil

/-- A text that is laid out as a row of data is read as these data, wherever it starts. -/
theorem readAll_of_layout
    {offset : Nat} {text : String} {lexemes : List Lexeme} {vs : List Value}
    (layout : Token.Layout offset text.toList lexemes) (derives : DerivesItems 0 lexemes vs) :
    readAll text = .ok vs := by
  obtain ⟨own, lexed, rfl⟩ := layout.exists_lex
  apply readAll_eq_ok_iff.mpr
  exact ⟨own, lexed, derives.of_tokens (Nat.le_refl 0) (by simp)⟩

theorem readAll_append_line
    {a b : String} {vs ws : List Value} (readFirst : readAll a = .ok vs)
    (readSecond : readAll b = .ok ws) : readAll (a ++ "\n" ++ b) = .ok (vs ++ ws) := by
  obtain ⟨front, lexedFirst, derivesFirst⟩ := readAll_eq_ok_iff.mp readFirst
  obtain ⟨back, lexedSecond, derivesSecond⟩ := readAll_eq_ok_iff.mp readSecond
  let place := 0 + Token.byteCount a.toList + 1
  have first : Token.Layout 0 a.toList front := Token.lexAt_eq_ok_iff.mp lexedFirst
  have second := Token.layout_of_lex lexedSecond place
  have moved : DerivesItems 0 (back.map (Lexeme.shift place)) ws :=
    derivesSecond.of_tokens (Nat.le_refl 0) (by simp)
  have joined : Token.Layout 0 (a ++ "\n" ++ b).toList
      (front ++ back.map (Lexeme.shift place)) := by
    simpa using first.append_line second
  exact readAll_of_layout joined (derivesFirst.append moved)

/-- A part of a list's tokens that lacks the last holds no more than its items. -/
theorem exists_of_append_closing
    {lexemes front back : List Lexeme} {close : Lexeme} (unfinished : back ≠ [])
    (whole : lexemes ++ [close] = front ++ back) : ∃ rest, lexemes = front ++ rest := by
  rcases List.append_eq_append_iff.mp whole with
    ⟨more, rfl, single⟩ | ⟨more, within, -⟩
  · cases more with
    | nil => exact ⟨[], by simp⟩
    | cons first more => simp [unfinished] at single
  · exact ⟨more, within⟩

mutual

theorem DerivesDatum.closings_le
    {depth : Nat} {lexemes front back : List Lexeme} {v : Value}
    (derives : DerivesDatum depth lexemes v) (whole : lexemes = front ++ back) :
    closings front ≤ openings front := by
  by_cases finished : back = []
  · have same := derives.closings_eq
    rw [whole, finished, List.append_nil] at same
    exact Nat.le_of_eq same
  · cases front with
    | nil => exact Nat.le_refl 0
    | cons first front =>
        cases derives with
        | literal => simp [finished] at whole
        | atom => simp [finished] at whole
        | quoteMark offset _ inner =>
            obtain ⟨rfl, within⟩ := List.cons.inj whole
            have fewer := inner.closings_le within
            simpa using fewer
        | list offset close _ items =>
            obtain ⟨rfl, within⟩ := List.cons.inj whole
            obtain ⟨rest, part⟩ := exists_of_append_closing finished within
            have fewer := items.closings_le part
            rw [closings_cons, openings_cons, if_neg nofun]
            omega

/-- A part of a row of data closes no list that it does not open. -/
theorem DerivesItems.closings_le
    {depth : Nat} {lexemes front back : List Lexeme} {vs : List Value}
    (derives : DerivesItems depth lexemes vs) (whole : lexemes = front ++ back) :
    closings front ≤ openings front := by
  cases derives with
  | nil =>
      obtain ⟨rfl, -⟩ := List.append_eq_nil_iff.mp whole.symm
      exact Nat.le_refl 0
  | cons datum items =>
      rcases List.append_eq_append_iff.mp whole with
        ⟨middle, rfl, later⟩ | ⟨middle, within, -⟩
      · have fewer := items.closings_le later
        rw [closings_append, openings_append, datum.closings_eq]
        omega
      · exact datum.closings_le within

end

/-- A part of a datum has a list open, or quotes what is yet to come. -/
theorem DerivesDatum.unfinished
    {depth : Nat} {lexemes front back : List Lexeme} {v : Value}
    (derives : DerivesDatum depth lexemes v) (whole : lexemes = front ++ back)
    (begun : front ≠ []) (unfinished : back ≠ []) :
    closings front < openings front ∨ EndsInQuoteMark front := by
  obtain ⟨first, front, rfl⟩ := List.exists_cons_of_ne_nil begun
  cases derives with
  | literal => simp [unfinished] at whole
  | atom => simp [unfinished] at whole
  | quoteMark offset _ inner =>
      obtain ⟨rfl, within⟩ := List.cons.inj whole
      by_cases alone : front = []
      · exact .inr ⟨[], offset, by rw [alone, List.nil_append]⟩
      · rcases inner.unfinished within alone unfinished with fewer | quotes
        · left
          simpa using fewer
        · exact .inr (quotes.append_left [_])
  | list offset close _ items =>
      obtain ⟨rfl, within⟩ := List.cons.inj whole
      obtain ⟨rest, part⟩ := exists_of_append_closing unfinished within
      have fewer := items.closings_le part
      left
      rw [closings_cons, openings_cons, if_neg nofun, if_pos rfl]
      omega

/-- A row of data is divided where every list is closed and nothing is quoted that is
yet to come. -/
theorem DerivesItems.exists_division
    {depth : Nat} {front back : List Lexeme} {vs : List Value}
    (derives : DerivesItems depth (front ++ back) vs)
    (closed : openings front ≤ closings front) (noQuote : ¬EndsInQuoteMark front) :
    ∃ before after, vs = before ++ after ∧
      DerivesItems depth front before ∧ DerivesItems depth back after := by
  induction vs generalizing front with
  | nil =>
      generalize whole : front ++ back = lexemes at derives
      cases derives
      obtain ⟨rfl, rfl⟩ := List.append_eq_nil_iff.mp whole
      exact ⟨[], [], rfl, .nil depth, .nil depth⟩
  | cons v vs induction =>
      generalize whole : front ++ back = lexemes at derives
      cases derives with
      | @cons _ first rest _ _ datum items =>
          rcases List.append_eq_append_iff.mp whole with
            ⟨middle, within, later⟩ | ⟨middle, rfl, later⟩
          · by_cases begun : front = []
            · subst begun
              refine ⟨[], v :: vs, rfl, .nil depth, ?_⟩
              rw [later, ← List.nil_append middle, ← within]
              exact .cons datum items
            · by_cases finished : middle = []
              · subst finished
                rw [List.append_nil] at within
                rw [List.nil_append] at later
                refine ⟨[v], vs, rfl, ?_, later ▸ items⟩
                have single := DerivesItems.cons datum (.nil depth)
                rwa [List.append_nil, within] at single
              · rcases datum.unfinished within begun finished with fewer | quotes
                · omega
                · exact absurd quotes noQuote
          · rw [openings_append, closings_append, datum.closings_eq] at closed
            subst later
            obtain ⟨before, after, rfl, derivesFront, derivesBack⟩ :=
              induction items (by omega) fun quotes => noQuote (quotes.append_left first)
            exact ⟨v :: before, after, rfl, .cons datum derivesFront, derivesBack⟩

end EffectLisp.Datum
