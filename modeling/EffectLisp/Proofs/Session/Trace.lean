import EffectLisp.Proofs.Effect.Trace
import EffectLisp.Session

/-!
# Traces of sessions

A form of a session is run by one step; what becomes of the session is what the
trace of the step ends in.
-/

namespace EffectLisp.Session

open Interaction (Path)
open Run (Trace)

variable {α : Type} {session final : Session} {exchanges : List Exchange}

/-- The evaluator changes no more of a session than the next serial number. -/
theorem trace_inContext_iff
    {evaluation : Context → Evaluation α} {result : Except Stop α} :
    Trace (inContext evaluation) session exchanges result final ↔
      ∃ serial,
        Trace (evaluation session.context) session.serial exchanges result serial ∧
          final = { session with serial } := by
  have focused : inContext evaluation session =
      Run.focus Session.serial (fun serial session => { session with serial })
        (evaluation session.context) session := rfl
  rw [Trace, focused]
  exact Run.trace_focus_iff

/-- The session after a load that a panic did not break off. -/
def leave (result : Except Stop α) (session : Session) : Session :=
  match result with
  | .error (.panic _) => session
  | _ => { session with loading := session.loading - 1 }

@[simp] theorem context_leave (result : Except Stop α) (session : Session) :
    (leave result session).context = session.context := by
  unfold leave
  split <;> rfl

@[simp] theorem serial_leave (result : Except Stop α) (session : Session) :
    (leave result session).serial = session.serial := by
  unfold leave
  split <;> rfl

theorem counted_eq (load : Step α) (session : Session) :
    counted load session =
      (load { session with loading := session.loading + 1 }).bind
        fun pair => .done (pair.1, leave pair.1 pair.2) := by
  apply congrArg (Interaction.bind _)
  funext ⟨result, left⟩
  rcases result with (f | payload) | a <;> rfl

theorem trace_counted_iff
    {load : Step α} {result : Except Stop α} :
    Trace (counted load) session exchanges result final ↔
      ∃ left,
        Trace load { session with loading := session.loading + 1 } exchanges result left ∧
          final = leave result left := by
  rw [Trace, counted_eq, Interaction.path_map_iff]
  constructor
  · intro given
    obtain ⟨⟨middle, left⟩, inner, same⟩ := given
    cases same
    exact ⟨left, inner, rfl⟩
  · intro given
    obtain ⟨left, inner, rfl⟩ := given
    exact ⟨(result, left), inner, rfl⟩

theorem runForm_eq (session : Session) (form : Value) :
    session.runForm form =
      (step session.context.maxDepth form { session with loading := 0 }).bind
        fun pair => .done (outcomeOf pair.1, pair.2) := rfl

theorem path_runForm_iff {form : Value} {outcome : Outcome} :
    Path (session.runForm form) exchanges (outcome, final) ↔
      ∃ result,
        Trace (step session.context.maxDepth form) { session with loading := 0 } exchanges
            result final ∧
          outcome = outcomeOf result := by
  rw [runForm_eq, Interaction.path_map_iff]
  constructor
  · intro given
    obtain ⟨⟨result, last⟩, inner, same⟩ := given
    cases same
    exact ⟨result, inner, rfl⟩
  · intro given
    obtain ⟨result, inner, rfl⟩ := given
    exact ⟨(result, final), inner, rfl⟩

/-- Forms in turn run by the exchanges of the first and then those of the others. -/
theorem path_runForms_cons
    {form : Value} {forms : List Value} {outcomes : List Outcome}
    (path : Path (session.runForms (form :: forms)) exchanges (outcomes, final)) :
    ∃ outcome others middle front back,
      exchanges = front ++ back ∧ outcomes = outcome :: others ∧
        Path (session.runForm form) front (outcome, middle) ∧
        Path (middle.runForms forms) back (others, final) := by
  obtain ⟨front, ⟨outcome, middle⟩, back, rfl, first, later⟩ :=
    Interaction.path_bind_iff.mp path
  obtain ⟨⟨others, last⟩, rest, same⟩ := Interaction.path_map_iff.mp later
  cases same
  exact ⟨outcome, others, middle, front, back, rfl, rfl, first, rest⟩

end EffectLisp.Session
