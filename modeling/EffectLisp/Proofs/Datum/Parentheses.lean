import EffectLisp.Proofs.Datum.Grammar

/-!
# Parentheses of a token sequence

Data close as many lists as they open.  A sequence that is refused because a list in it
is never closed opens more lists than it closes: what was read before is data, and each
list around the end of the sequence was opened by a token of it.
-/

namespace EffectLisp

/-- How many lists the lexemes open. -/
def openings (lexemes : List Lexeme) : Nat :=
  lexemes.countP (·.token = .opening)

/-- How many lists the lexemes close. -/
def closings (lexemes : List Lexeme) : Nat :=
  lexemes.countP (·.token = .closing)

@[simp] theorem openings_nil : openings [] = 0 := rfl

@[simp] theorem closings_nil : closings [] = 0 := rfl

@[simp] theorem openings_cons (token : Token) (offset : Nat) (lexemes : List Lexeme) :
    openings (⟨token, offset⟩ :: lexemes) =
      openings lexemes + if token = .opening then 1 else 0 := by
  simp [openings, List.countP_cons]

@[simp] theorem closings_cons (token : Token) (offset : Nat) (lexemes : List Lexeme) :
    closings (⟨token, offset⟩ :: lexemes) =
      closings lexemes + if token = .closing then 1 else 0 := by
  simp [closings, List.countP_cons]

@[simp] theorem openings_append (front rest : List Lexeme) :
    openings (front ++ rest) = openings front + openings rest :=
  List.countP_append

@[simp] theorem closings_append (front rest : List Lexeme) :
    closings (front ++ rest) = closings front + closings rest :=
  List.countP_append

namespace Datum

mutual

theorem DerivesDatum.closings_eq
    {depth : Nat} {lexemes : List Lexeme} {v : Value}
    (derives : DerivesDatum depth lexemes v) : closings lexemes = openings lexemes := by
  cases derives with
  | literal => rfl
  | atom => rfl
  | quoteMark offset _ inner =>
      have same := inner.closings_eq
      simpa using same
  | list offset close _ items =>
      have same := items.closings_eq
      simpa using same

theorem DerivesItems.closings_eq
    {depth : Nat} {lexemes : List Lexeme} {vs : List Value}
    (derives : DerivesItems depth lexemes vs) : closings lexemes = openings lexemes := by
  cases derives with
  | nil => rfl
  | cons datum items =>
      rw [closings_append, openings_append, datum.closings_eq, items.closings_eq]

end

theorem eq_tooDeep_of_descend
    {depth offset : Nat} {error : ParseError}
    (refused : descend depth offset = .error error) : error = .tooDeep offset := by
  unfold descend at refused
  split at refused
  · cases refused
    rfl
  · cases refused

mutual

/-- A datum with a list that is never closed. -/
theorem closings_lt_of_datum?
    {steps depth offset : Nat} {lexemes : List Lexeme}
    (unclosed : datum? steps depth lexemes = .error (.unclosedList offset)) :
    closings lexemes < openings lexemes := by
  match steps, lexemes with
  | 0, _ => cases unclosed
  | _ + 1, [] => cases unclosed
  | steps + 1, ⟨token, place⟩ :: tail =>
      cases token with
      | opening =>
          rcases bind_eq_error unclosed with tooDeep | ⟨_, _, inner⟩
          · cases eq_tooDeep_of_descend tooDeep
          · have noMore := closings_le_of_items? inner
            rw [closings_cons, openings_cons, if_neg nofun, if_pos rfl]
            omega
      | closing => cases unclosed
      | quoteMark =>
          simp only [datum?] at unclosed
          split at unclosed
          · cases unclosed
          · rcases bind_eq_error unclosed with tooDeep | ⟨_, _, inner⟩
            · cases eq_tooDeep_of_descend tooDeep
            · rcases bind_eq_error inner with within | ⟨_, _, result⟩
              · have fewer := closings_lt_of_datum? within
                simpa using fewer
              · cases result
      | literal => cases unclosed
      | atom => cases unclosed

/-- The items of a list that is never closed, or of which one has such a list. -/
theorem closings_le_of_items?
    {steps depth start offset : Nat} {done : List Value} {lexemes : List Lexeme}
    (unclosed : items? steps depth start done lexemes = .error (.unclosedList offset)) :
    closings lexemes ≤ openings lexemes := by
  match steps, lexemes with
  | _, [] => exact Nat.le_refl 0
  | steps, ⟨token, place⟩ :: tail =>
      by_cases closes : token = .closing
      · subst closes
        cases steps <;> cases unclosed
      · match steps with
        | 0 => cases token <;> first | exact absurd rfl closes | cases unclosed
        | steps + 1 =>
            rw [items?_cons closes] at unclosed
            split at unclosed
            · next error within =>
                cases unclosed
                exact Nat.le_of_lt (closings_lt_of_datum? within)
            · next w after readFirst =>
                obtain ⟨first, whole, datum⟩ := DerivesDatum.of_datum? readFirst
                have noMore := closings_le_of_items? unclosed
                rw [whole, closings_append, openings_append, datum.closings_eq]
                omega

end

theorem closings_lt_of_allFrom
    {steps offset : Nat} {done : List Value} {lexemes : List Lexeme}
    (unclosed : allFrom steps done lexemes = .error (.unclosedList offset)) :
    closings lexemes < openings lexemes := by
  induction steps generalizing done lexemes with
  | zero => cases lexemes <;> cases unclosed
  | succ steps induction =>
      cases lexemes with
      | nil => cases unclosed
      | cons lexeme tail =>
          rw [allFrom] at unclosed
          split at unclosed
          · next error within =>
              cases unclosed
              exact closings_lt_of_datum? within
          · next w after readFirst =>
              obtain ⟨first, whole, datum⟩ := DerivesDatum.of_datum? readFirst
              have fewer := induction unclosed
              rw [whole, closings_append, openings_append, datum.closings_eq]
              omega

section Refused

variable {offset : Nat} {lexemes : List Lexeme} {text : String}

/-- A sequence with a list that is never closed opens more lists than it closes. -/
theorem closings_lt_of_parseAll
    (unclosed : parseAll lexemes = .error (.unclosedList offset)) :
    closings lexemes < openings lexemes :=
  closings_lt_of_allFrom unclosed

theorem closings_lt_of_parseOne
    (unclosed : parseOne lexemes = .error (.unclosedList offset)) :
    closings lexemes < openings lexemes := by
  unfold parseOne at unclosed
  split at unclosed
  · cases unclosed
  · rcases bind_eq_error unclosed with within | ⟨⟨v, rest⟩, _, result⟩
    · exact closings_lt_of_datum? within
    · cases rest <;> cases result

/-- A text that is refused for its tokens has tokens. -/
theorem exists_parse_of_structural
    {α : Type} {parse : List Lexeme → Except ParseError α} {error : ParseError}
    (failed : (do
      (parse (← tokens text)).mapError fun error => .parseFailure (.structural error)) =
        (.error (.parseFailure (.structural error)) : Except Fault α)) :
    ∃ lexemes, Token.lex text = .ok lexemes ∧ parse lexemes = .error error := by
  rcases bind_eq_error failed with unlexed | ⟨lexemes, lexed, parsed⟩
  · obtain ⟨cause, _, same⟩ := mapError_eq_error unlexed
    cases same
  · obtain ⟨cause, refused, same⟩ := mapError_eq_error parsed
    cases same
    exact ⟨lexemes, mapError_eq_ok_iff.mp lexed, refused⟩

end Refused

end Datum

end EffectLisp
