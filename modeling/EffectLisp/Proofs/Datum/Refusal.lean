import EffectLisp.Datum.Codec
import EffectLisp.Proofs.Datum.Grammar

/-!
# Refusals of the codec

What is refused by reading or by writing is refused with a fault of the language:
the codec reports no internal fault.
-/

namespace EffectLisp

/-- The faults that are not part of the language. -/
def Fault.IsInternal : Fault → Prop
  | .internal _ => True
  | _ => False

namespace Datum

mutual

theorem not_isInternal_of_write
    {depth : Nat} {v : Value} {f : Fault} (refused : write depth v = .error f) :
    ¬f.IsInternal := by
  cases v with
  | symbol name =>
      simp only [write] at refused
      split at refused
      · cases refused
      · cases refused
        exact id
  | callable c =>
      cases refused
      exact id
  | list items =>
      simp only [write] at refused
      split at refused
      · cases refused
        exact id
      · rcases bind_eq_error refused with inside | ⟨chars, _, result⟩
        · exact not_isInternal_of_writeItems inside
        · cases result
  | _ => cases refused

theorem not_isInternal_of_writeItems
    {depth : Nat} {items : List Value} {f : Fault}
    (refused : writeItems depth items = .error f) : ¬f.IsInternal := by
  match items with
  | [] => cases refused
  | [item] =>
      rcases bind_eq_error refused with first | ⟨chars, _, result⟩
      · exact not_isInternal_of_write first
      · cases result
  | item :: other :: items =>
      rcases bind_eq_error refused with first | ⟨chars, _, others⟩
      · exact not_isInternal_of_write first
      · rcases bind_eq_error others with later | ⟨rest, _, result⟩
        · exact not_isInternal_of_writeItems later
        · cases result

end

theorem not_isInternal_of_showValue
    {v : Value} {f : Fault} (refused : showValue v = .error f) : ¬f.IsInternal := by
  rcases bind_eq_error refused with written | ⟨chars, _, result⟩
  · exact not_isInternal_of_write written
  · cases result

theorem not_isInternal_of_mapError
    {ε α : Type} {parsed : Except ε α} {error : ε → ReadError} {f : Fault}
    (refused : parsed.mapError (fun e => Fault.parseFailure (error e)) = .error f) :
    ¬f.IsInternal := by
  cases parsed with
  | error e =>
      cases refused
      exact id
  | ok a => cases refused

theorem not_isInternal_of_read
    {text : String} {f : Fault} (refused : read text = .error f) : ¬f.IsInternal := by
  rcases bind_eq_error refused with lexed | ⟨lexemes, _, parsed⟩
  · exact not_isInternal_of_mapError lexed
  · exact not_isInternal_of_mapError parsed

theorem not_isInternal_of_readAll
    {text : String} {f : Fault} (refused : readAll text = .error f) : ¬f.IsInternal := by
  rcases bind_eq_error refused with lexed | ⟨lexemes, _, parsed⟩
  · exact not_isInternal_of_mapError lexed
  · exact not_isInternal_of_mapError parsed

theorem eq_parseFailure_of_read
    {text : String} {f : Fault} (refused : read text = .error f) :
    ∃ e, f = .parseFailure e := by
  rcases bind_eq_error refused with lexed | ⟨lexemes, _, parsed⟩
  · obtain ⟨e, -, rfl⟩ := mapError_eq_error lexed
    exact ⟨_, rfl⟩
  · obtain ⟨e, -, rfl⟩ := mapError_eq_error parsed
    exact ⟨_, rfl⟩

/-- A text that cannot be read is a parse failure. -/
theorem eq_parseFailure_of_readAll
    {text : String} {f : Fault} (refused : readAll text = .error f) :
    ∃ e, f = .parseFailure e := by
  rcases bind_eq_error refused with lexed | ⟨lexemes, _, parsed⟩
  · obtain ⟨e, -, rfl⟩ := mapError_eq_error lexed
    exact ⟨_, rfl⟩
  · obtain ⟨e, -, rfl⟩ := mapError_eq_error parsed
    exact ⟨_, rfl⟩

end Datum

end EffectLisp
