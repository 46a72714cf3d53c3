import EffectLisp.Proofs.Eval.Let
import EffectLisp.Proofs.Session.Fresh
import EffectLisp.Proofs.Session.Saved

/-!
# Bindings in sessions

That a `let` form comes to the same as an applied lambda asks of the context, the form and
the replies that they hold no lambda with a number that is still to be given out.  In a
session that has run nothing but texts this is always so, because a form that is read from a
text holds no lambda and no host replies with one.
-/

namespace EffectLisp.Session

open Eval (appliedLambda letForm)
open Interaction (forall_reply_play)

/-- The parts of a `let` form that is read from a text hold no lambda. -/
theorem madeBefore_of_read_letForm
    {text : String} {bound : List (String × Value)} {body : List Value}
    (read : Datum.read text = .ok (letForm bound body)) (serial : Nat) :
    (∀ b ∈ bound, b.2.MadeBefore serial) ∧ ∀ part ∈ body, part.MadeBefore serial := by
  have form := Datum.madeBefore_of_read read serial
  rw [letForm, Value.madeBefore_list_iff, List.forall_mem_cons, List.forall_mem_cons,
    Value.madeBefore_list_iff] at form
  obtain ⟨-, pairs, parts⟩ := form
  refine ⟨?_, parts⟩
  intro b inside
  have pair := pairs _ (List.mem_map_of_mem inside)
  exact Value.madeBefore_list_iff.mp pair b.2 (by simp)

/-- After any texts on any host, a `let` form that is read from a text is one step that has
the same exchanges, leaves the same world and has the same outcome as the lambda with its
names that is applied at once, unless that goes beyond the limit.  Lambdas that are made on
the way have the next number left out. -/
theorem play_runForm_letForm
    {ω : Type} (host : Host (StateM ω)) (maxDepth : Nat) (world now : ω)
    (texts : List String) {text : String} {bound : List (String × Value)} {e : Value}
    {body : List Value} (read : Datum.read text = .ok (letForm bound (e :: body))) :
    let session := afterTexts host.bridge (start (Context.root.withMaxDepth maxDepth) 0) world
      texts
    let applied := host.bridge.play now (session.runForm (appliedLambda bound (e :: body)))
    let played := host.bridge.play now (session.runForm (letForm bound (e :: body)))
    (∀ limit, applied.result.1 ≠ .fault (.recursionLimit limit)) →
      played.exchanges = applied.exchanges ∧ played.world = applied.world ∧
        ∃ result, played.result.1 = outcomeOf result ∧
          applied.result.1 =
            outcomeOf (renumberEnd (skip session.serial)
              (Value.renumber (skip session.serial)) result) := by
  intro session applied played finished
  have numbered : session.Numbered := numbered_afterTexts host maxDepth world texts
  obtain ⟨before_bound, before_body⟩ := madeBefore_of_read_letForm read session.serial
  have applies : applied = _ := play_runForm_of_expression rfl session host.bridge now
  have plays : played = _ := play_runForm_of_expression rfl session host.bridge now
  rw [applies] at finished
  have replies := forall_reply_play
    (fun effect world => host.madeBefore_perform effect world session.serial) now
    (Eval.eval session.context (appliedLambda bound (e :: body)) session.serial)
  obtain ⟨exchanges, last, result⟩ := Eval.play_letForm_alike host.bridge now numbered
    before_bound before_body replies
    (fun limit stopped => finished limit (congrArg outcomeOf stopped))
  rw [applies, plays]
  exact ⟨exchanges, last, _, rfl, congrArg outcomeOf result⟩

end EffectLisp.Session
