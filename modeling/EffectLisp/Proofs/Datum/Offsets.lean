import EffectLisp.Proofs.Datum.Grammar
import EffectLisp.Proofs.Token.Failure

/-!
# The offsets of errors

An error of the reader that names an offset names one at which a character of the text
begins.  The lexer counts the bytes up to what it refuses, and the parser names offsets
of tokens only.
-/

namespace EffectLisp

/-- The offset that an error names, if it does. -/
def ParseError.offset? : ParseError → Option Nat
  | .unexpectedEnd | .emptyInput => none
  | .unclosedList offset | .unmatchedClose offset | .danglingQuote offset
  | .trailingInput offset | .tooDeep offset => some offset

def ReadError.offset? : ReadError → Option Nat
  | .lexical error => some error.offset
  | .structural error => error.offset?

namespace Datum

open Token (StandsAt)

/-- If the error names an offset, then that of one of the lexemes. -/
def NamesOneOf (lexemes : List Lexeme) (error : ParseError) : Prop :=
  ∀ offset, error.offset? = some offset → ∃ lexeme ∈ lexemes, lexeme.offset = offset

namespace NamesOneOf

variable {lexemes others : List Lexeme} {error : ParseError}

theorem mono (names : NamesOneOf lexemes error) (part : lexemes ⊆ others) :
    NamesOneOf others error := by
  intro offset named
  obtain ⟨lexeme, member, same⟩ := names offset named
  exact ⟨lexeme, part member, same⟩

theorem of_mem
    {lexeme : Lexeme} (member : lexeme ∈ lexemes)
    (named : error.offset? = some lexeme.offset) : NamesOneOf lexemes error := by
  intro offset same
  exact ⟨lexeme, member, Option.some.inj (named.symm.trans same)⟩

theorem of_descend
    {depth : Nat} {lexeme : Lexeme} (member : lexeme ∈ lexemes)
    (refused : descend depth lexeme.offset = .error error) : NamesOneOf lexemes error := by
  unfold descend at refused
  split at refused
  · cases refused
    exact of_mem member rfl
  · cases refused

end NamesOneOf

mutual

theorem namesOneOf_of_datum?
    {steps depth : Nat} {lexemes : List Lexeme} {error : ParseError}
    (failed : datum? steps depth lexemes = .error error) : NamesOneOf lexemes error := by
  match steps, lexemes with
  | 0, _ =>
      cases failed
      nofun
  | steps + 1, [] =>
      cases failed
      nofun
  | steps + 1, ⟨token, offset⟩ :: tail =>
      have here := List.mem_cons_self (a := ⟨token, offset⟩) (l := tail)
      cases token with
      | opening =>
          rcases bind_eq_error failed with refused | ⟨_, _, inside⟩
          · exact .of_descend here refused
          · exact namesOneOf_of_items? inside
      | closing =>
          cases failed
          exact .of_mem here rfl
      | quoteMark =>
          simp only [datum?] at failed
          split at failed
          · cases failed
            exact .of_mem here rfl
          · rcases bind_eq_error failed with refused | ⟨_, _, inside⟩
            · exact .of_descend here refused
            · rcases bind_eq_error inside with inner | ⟨_, _, result⟩
              · exact (namesOneOf_of_datum? inner).mono (List.subset_cons_self _ _)
              · cases result
      | literal text => cases failed
      | atom spelling => cases failed

/-- A list without an end is named by its opening parenthesis. -/
theorem namesOneOf_of_items?
    {steps depth start : Nat} {done : List Value} {lexemes : List Lexeme}
    {error : ParseError} (failed : items? steps depth start done lexemes = .error error) :
    NamesOneOf (⟨.opening, start⟩ :: lexemes) error := by
  match steps, lexemes with
  | 0, [] =>
      cases failed
      exact .of_mem List.mem_cons_self rfl
  | _ + 1, [] =>
      cases failed
      exact .of_mem List.mem_cons_self rfl
  | 0, ⟨token, offset⟩ :: tail =>
      cases token <;> cases failed <;> nofun
  | steps + 1, ⟨token, offset⟩ :: tail =>
      by_cases closes : token = .closing
      · subst closes
        cases failed
      · rw [items?_cons closes] at failed
        split at failed
        · next read =>
            cases failed
            exact (namesOneOf_of_datum? read).mono (List.subset_cons_self _ _)
        · next w after read =>
            obtain ⟨front, whole, -⟩ := DerivesDatum.of_datum? read
            rw [whole]
            apply (namesOneOf_of_items? failed).mono
            exact List.cons_subset_cons _ (List.subset_append_right front after)

end

theorem namesOneOf_of_allFrom
    {steps : Nat} {done : List Value} {lexemes : List Lexeme} {error : ParseError}
    (failed : allFrom steps done lexemes = .error error) : NamesOneOf lexemes error := by
  induction steps generalizing done lexemes with
  | zero =>
      cases lexemes with
      | nil => cases failed
      | cons lexeme tail =>
          cases failed
          nofun
  | succ steps induction =>
      cases lexemes with
      | nil => cases failed
      | cons lexeme tail =>
          rw [allFrom] at failed
          split at failed
          · next read =>
              cases failed
              exact namesOneOf_of_datum? read
          · next w after read =>
              obtain ⟨front, whole, -⟩ := DerivesDatum.of_datum? read
              rw [whole]
              exact (induction failed).mono (List.subset_append_right front after)

theorem namesOneOf_of_parseOne
    {lexemes : List Lexeme} {error : ParseError} (failed : parseOne lexemes = .error error) :
    NamesOneOf lexemes error := by
  unfold parseOne at failed
  split at failed
  · cases failed
    nofun
  · rcases bind_eq_error failed with first | ⟨⟨v, rest⟩, read, result⟩
    · exact namesOneOf_of_datum? first
    · cases rest with
      | nil => cases result
      | cons next rest =>
          cases result
          obtain ⟨front, whole, -⟩ := DerivesDatum.of_datum? read
          rw [whole]
          exact .of_mem (List.mem_append_right front List.mem_cons_self) rfl

section Texts

variable {text : String} {lexemes : List Lexeme}

/-- Where a lexeme stands there is a character of the text. -/
theorem exists_standsAt_of_lex
    (lexed : Token.lex text = .ok lexemes) {lexeme : Lexeme} (member : lexeme ∈ lexemes) :
    ∃ c, StandsAt text lexeme.offset c := by
  rw [Token.lex_eq_lexAt] at lexed
  obtain ⟨front, spelling, rest, whole, place, spelled⟩ :=
    (Token.lexAt_eq_ok_iff.mp lexed).exists_split lexeme member
  obtain ⟨c, tail, rfl⟩ := List.exists_cons_of_ne_nil spelled.nonempty
  exact ⟨c, front, tail ++ rest, whole, by rw [place, Nat.zero_add]⟩

theorem exists_standsAt_of_lex_error
    {error : LexError} (failed : Token.lex text = .error error) :
    ∃ c, StandsAt text error.offset c := by
  rw [Token.lex_eq_lexAt] at failed
  obtain ⟨c, rest, reaches, -, -⟩ := Token.lexAt_eq_error_iff.mp failed
  exact ⟨c, reaches.standsAt⟩

theorem exists_standsAt_of_tokens
    {α : Type} {parse : List Lexeme → Except ParseError α}
    (names : ∀ {lexemes error}, parse lexemes = .error error → NamesOneOf lexemes error)
    {error : ReadError} {offset : Nat} (named : error.offset? = some offset)
    (failed : (do
      (parse (← tokens text)).mapError fun error => Fault.parseFailure (.structural error)) =
        .error (.parseFailure error)) :
    ∃ c, StandsAt text offset c := by
  rcases bind_eq_error failed with lexed | ⟨lexemes, lexed, parsed⟩
  · obtain ⟨cause, refused, same⟩ := mapError_eq_error lexed
    cases same
    cases named
    exact exists_standsAt_of_lex_error refused
  · obtain ⟨cause, refused, same⟩ := mapError_eq_error parsed
    cases same
    obtain ⟨lexeme, member, rfl⟩ := names refused offset named
    exact exists_standsAt_of_lex (mapError_eq_ok_iff.mp lexed) member

theorem exists_standsAt_of_readAll
    {error : ReadError} {offset : Nat} (named : error.offset? = some offset)
    (failed : readAll text = .error (.parseFailure error)) : ∃ c, StandsAt text offset c :=
  exists_standsAt_of_tokens namesOneOf_of_allFrom named failed

theorem exists_standsAt_of_read
    {error : ReadError} {offset : Nat} (named : error.offset? = some offset)
    (failed : read text = .error (.parseFailure error)) : ∃ c, StandsAt text offset c :=
  exists_standsAt_of_tokens namesOneOf_of_parseOne named failed

end Texts

end Datum

end EffectLisp
