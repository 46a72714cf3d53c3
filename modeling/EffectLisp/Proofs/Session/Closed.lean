import EffectLisp.Proofs.Eval.Closed
import EffectLisp.Session

/-!
# Properties of every step

A property that all evaluations have, and that counting a load preserves, is a
property of every step of a session, however many loads run within it.
-/

namespace EffectLisp.Run.Closed

open Session (Step)

variable {P : ∀ {σ α : Type}, Run σ α → Prop}

section

variable (closed : Closed @P)

include closed

theorem inContext
    {α : Type} {evaluation : Context → Evaluation α}
    (every : ∀ ctx, P (evaluation ctx)) :
    P (Session.inContext evaluation) :=
  closed.bind closed.getState fun session => closed.focus _ _ (every session.context)

theorem definition (ctx : Context) (operands : List Value) :
    P (Session.definition ctx operands) := by
  unfold Session.definition
  split
  · exact closed.bind (closed.eval ctx _) fun v => closed.pure _
  · split
    · refine closed.bind (closed.parameterNames "define" _) fun names => ?_
      exact closed.bind (closed.makeLambda _ names _) fun v => closed.pure _
    · exact closed.fail id
  · exact closed.fail id

theorem define (operands : List Value) : P (Session.define operands) := by
  refine closed.bind (closed.inContext fun ctx => closed.definition ctx operands) ?_
  intro ⟨name, v⟩
  exact closed.bind (closed.modifyState _) fun _ => closed.pure _

theorem fileText (ctx : Context) (operands : List Value) :
    P (Session.fileText ctx operands) := by
  unfold Session.fileText
  split
  · refine closed.bind (closed.eval ctx _) fun path => ?_
    split
    · exact closed.fail id
    · refine closed.bind (closed.apply ctx _ [path]) fun text => ?_
      split
      · exact closed.pure _
      · exact closed.fail id
    · exact closed.fail id
  · exact closed.fail id

theorem stepsFrom
    {run : Value → Step Value} (each : ∀ form, P (run form)) (last : Value)
    (forms : List Value) : P (Session.stepsFrom run last forms) := by
  induction forms generalizing last with
  | nil => exact closed.pure last
  | cons form forms induction => exact closed.bind (each form) induction

theorem loadFile
    {run : Value → Step Value} (each : ∀ form, P (run form)) (operands : List Value) :
    P (Session.loadFile run operands) := by
  have text (ctx : Context) := closed.fileText ctx operands
  refine closed.bind (closed.inContext text) fun text => ?_
  refine closed.bind (closed.ofExcept fun f refused => ?_) fun forms => ?_
  · exact Datum.not_isInternal_of_readAll refused
  · exact closed.stepsFrom each .unit forms

end

/-- The property holds of every step. -/
theorem step
    (closed : Closed @P)
    (counted : ∀ {α : Type} {load : Step α}, P load → P (Session.counted load))
    (room : Nat) (form : Value) : P (Session.step room form) := by
  unfold Session.step
  split
  · exact closed.define _
  · exact closed.inContext fun ctx => closed.eval ctx _
  · refine closed.bind closed.getState fun session => ?_
    split
    · exact closed.fail id
    · match room with
      | 0 => exact closed.fail id
      | room + 1 => exact counted (closed.loadFile (closed.step counted room) _)

end EffectLisp.Run.Closed
