import EffectLisp.Proofs.Effect.Trace
import EffectLisp.Proofs.Value.Renumbering

/-!
# Computations under other serial numbers

A computation mirrors another under a change of serial numbers if it makes the same
requests and, when its replies are those of the other under the change, ends in the
result of the other under the change.  On a bridge whose replies hold no lambda that the
change concerns the two have the same exchanges.

For runs of an evaluation the change has to go on with the numbers that are given out:
from the next number on it moves all of them by the same distance.
-/

namespace EffectLisp

def Stop.renumber (f : Nat → Nat) : Stop → Stop
  | .fault reason => .fault (reason.renumber f)
  | .panic payload => .panic payload

/-- The reply with the numbers of lambdas in it changed. -/
def Reply.renumber (f : Nat → Nat) : Reply → Reply
  | .value v => .value (v.renumber f)
  | .fault reason => .fault (reason.renumber f)
  | .panic payload => .panic payload

/-- An end with its result changed, and the numbers of lambdas in a fault. -/
def renumberEnd {α β : Type} (f : Nat → Nat) (g : α → β) : Except Stop α → Except Stop β
  | .ok a => .ok (g a)
  | .error stop => .error (stop.renumber f)

/-- Every lambda in the reply has a number before this one. -/
def Reply.MadeBefore (serial : Nat) : Reply → Prop
  | .value v => v.MadeBefore serial
  | .fault reason => reason.MadeBefore serial
  | .panic _ => True

theorem Reply.MadeBefore.renumber_skip
    {serial : Nat} {reply : Reply} (before : reply.MadeBefore serial) :
    reply.renumber (skip serial) = reply := by
  cases reply with
  | value v => exact congrArg Reply.value (Value.MadeBefore.renumber_skip before)
  | fault reason => exact congrArg Reply.fault (Fault.MadeBefore.renumber_skip before)
  | panic payload => rfl

/-- From a serial number on the numbers that are given out stay in a row. -/
def GoesOn (f : Nat → Nat) (serial : Nat) : Prop :=
  ∀ n, serial ≤ n → f (n + 1) = f n + 1

theorem goesOn_skip (serial : Nat) : GoesOn (skip serial) serial := by
  intro n later
  unfold skip
  rw [if_neg (by omega), if_neg (by omega)]

namespace Interaction

variable {α β γ δ : Type} {f : Nat → Nat}

inductive Mirrors (f : Nat → Nat) (related : α → β → Prop) :
    Interaction α → Interaction β → Prop where
  | done {a : α} {b : β} : related a b → Mirrors f related (.done a) (.done b)
  | request (effect : Effect) {resume : Reply → Interaction α}
      {other : Reply → Interaction β} :
      (∀ reply, Mirrors f related (resume reply) (other (reply.renumber f))) →
      Mirrors f related (.request effect resume) (.request effect other)

theorem Mirrors.bind
    {related : α → β → Prop} {related' : γ → δ → Prop}
    {x : Interaction α} {y : Interaction β}
    {next : α → Interaction γ} {next' : β → Interaction δ}
    (first : Mirrors f related x y)
    (rest : ∀ a b, related a b → Mirrors f related' (next a) (next' b)) :
    Mirrors f related' (x.bind next) (y.bind next') := by
  induction first with
  | done same => exact rest _ _ same
  | request effect _ induction => exact .request effect induction

/-- On a bridge whose replies are not changed both are played alike. -/
theorem Mirrors.play
    {related : α → β → Prop} {x : Interaction α} {y : Interaction β}
    (mirrors : Mirrors f related x y) {σ : Type} (bridge : Bridge σ) (world : σ)
    (fixed : ∀ exchange ∈ (bridge.play world y).exchanges,
      exchange.reply.renumber f = exchange.reply) :
    (bridge.play world x).exchanges = (bridge.play world y).exchanges ∧
      related (bridge.play world x).result (bridge.play world y).result ∧
      (bridge.play world x).world = (bridge.play world y).world := by
  induction mirrors generalizing world with
  | done same => exact ⟨rfl, same, rfl⟩
  | request effect _ induction =>
      simp only [Bridge.play, List.forall_mem_cons] at fixed ⊢
      obtain ⟨first, later⟩ := fixed
      have alike := induction (bridge.perform effect world).1 (bridge.perform effect world).2
      rw [first] at alike
      obtain ⟨exchanges, result, last⟩ := alike later
      exact ⟨congrArg _ exchanges, result, last⟩

end Interaction

namespace Run

variable {α β γ δ : Type} {f : Nat → Nat}

/-- From the number that goes with it the second run mirrors the first. -/
def Mirrors (f : Nat → Nat) (g : α → β) (x : Run Nat α) (y : Run Nat β) : Prop :=
  ∀ serial, GoesOn f serial →
    Interaction.Mirrors f
      (fun left right =>
        right = (renumberEnd f g left.1, f left.2) ∧ GoesOn f left.2)
      (x serial) (y (f serial))

namespace Mirrors

variable {g : α → β} {h : γ → δ}

theorem pure (a : α) : Mirrors f g (Pure.pure a) (Pure.pure (g a)) := by
  intro serial goesOn
  exact .done ⟨rfl, goesOn⟩

theorem fail (reason : Fault) :
    Mirrors f g (Run.fail reason) (Run.fail (reason.renumber f)) := by
  intro serial goesOn
  exact .done ⟨rfl, goesOn⟩

theorem bind
    {x : Run Nat α} {y : Run Nat β} {next : α → Run Nat γ} {next' : β → Run Nat δ}
    (first : Mirrors f g x y) (rest : ∀ a, Mirrors f h (next a) (next' (g a))) :
    Mirrors f h (x >>= next) (y >>= next') := by
  intro serial goesOn
  rw [Run.bind_eq, Run.bind_eq]
  apply (first serial goesOn).bind
  rintro ⟨stop | a, middle⟩ _ ⟨rfl, later⟩
  · exact .done ⟨rfl, later⟩
  · exact rest a middle later

theorem perform (effect : Effect) :
    Mirrors f (Value.renumber f) (Run.perform effect) (Run.perform effect) := by
  intro serial goesOn
  apply Interaction.Mirrors.request effect
  intro reply
  cases reply <;> exact .done ⟨rfl, goesOn⟩

theorem ofExcept {given : Except Fault α} {other : Except Fault β}
    (same : other = (given.map g).mapError (·.renumber f)) :
    Mirrors f g (Run.ofExcept given) (Run.ofExcept other) := by
  subst same
  cases given with
  | ok a => exact .pure a
  | error reason => exact .fail reason

end Mirrors

end Run

end EffectLisp
