import EffectLisp.Effect.Run

/-!
# Computations that follow others

One computation follows another if it makes the same requests and, whatever the
replies are, ends in a related result.  Where the other ends in an excused result,
nothing is asked of it.  On a bridge the two then have the same exchanges, unless
the other is excused.

For runs the relation is between the states they start and end in and the results
they stop with; a stop is related only to itself.
-/

namespace EffectLisp

namespace Interaction

variable {α β γ δ : Type}

inductive Follows (excused : α → Prop) (related : α → β → Prop) :
    Interaction α → Interaction β → Prop where
  | done {a : α} {b : β} :
      related a b → Follows excused related (.done a) (.done b)
  | excused {a : α} (y : Interaction β) :
      excused a → Follows excused related (.done a) y
  | request (effect : Effect) {resume : Reply → Interaction α}
      {other : Reply → Interaction β} :
      (∀ reply, Follows excused related (resume reply) (other reply)) →
      Follows excused related (.request effect resume) (.request effect other)

theorem Follows.refl
    {related : α → α → Prop} (reflexive : ∀ a, related a a) (excused : α → Prop)
    (x : Interaction α) : Follows excused related x x := by
  induction x with
  | done a => exact .done (reflexive a)
  | request effect resume induction => exact .request effect induction

theorem Follows.bind
    {excused : α → Prop} {related : α → β → Prop}
    {excused' : γ → Prop} {related' : γ → δ → Prop}
    {x : Interaction α} {y : Interaction β}
    {next : α → Interaction γ} {next' : β → Interaction δ}
    (first : Follows excused related x y)
    (rest : ∀ a b, related a b → Follows excused' related' (next a) (next' b))
    (stopped : ∀ a z, excused a → Follows excused' related' (next a) z) :
    Follows excused' related' (x.bind next) (y.bind next') := by
  induction first with
  | done same => exact rest _ _ same
  | excused y excuse => exact stopped _ _ excuse
  | request effect _ induction => exact .request effect induction

theorem Follows.trans
    {excused : α → Prop} {related : α → β → Prop}
    {excused' : β → Prop} {related' : β → γ → Prop} {related'' : α → γ → Prop}
    {x : Interaction α} {y : Interaction β} {z : Interaction γ}
    (first : Follows excused related x y) (second : Follows excused' related' y z)
    (excuse : ∀ a b, related a b → excused' b → excused a)
    (compose : ∀ a b c, related a b → related' b c → related'' a c) :
    Follows excused related'' x z := by
  induction first generalizing z with
  | done same =>
      cases second with
      | done same' => exact .done (compose _ _ _ same same')
      | excused z excuse' => exact .excused z (excuse _ _ same excuse')
  | excused y excuse' => exact .excused z excuse'
  | request effect _ induction =>
      cases second with
      | request _ rest => exact .request effect fun reply => induction reply (rest reply)

theorem Follows.play
    {excused : α → Prop} {related : α → β → Prop}
    {x : Interaction α} {y : Interaction β} (follows : Follows excused related x y)
    {σ : Type} (bridge : Bridge σ) (world : σ)
    (finished : ¬excused (bridge.play world x).result) :
    (bridge.play world y).exchanges = (bridge.play world x).exchanges ∧
      related (bridge.play world x).result (bridge.play world y).result ∧
      (bridge.play world y).world = (bridge.play world x).world := by
  induction follows generalizing world with
  | done same => exact ⟨rfl, same, rfl⟩
  | excused y excuse => exact absurd excuse finished
  | request effect _ induction =>
      obtain ⟨exchanges, result, last⟩ := induction _ _ finished
      refine ⟨?_, result, last⟩
      simp only [Bridge.play, exchanges]

end Interaction

/-- Results that are related, or the same stop. -/
inductive SameEnd {α β : Type} (related : α → β → Prop) :
    Except Stop α → Except Stop β → Prop where
  | ok {a : α} {b : β} : related a b → SameEnd related (.ok a) (.ok b)
  | stop (stop : Stop) : SameEnd related (.error stop) (.error stop)

theorem sameEnd_eq_iff
    {α : Type} {result other : Except Stop α} :
    SameEnd Eq result other ↔ result = other := by
  constructor
  · intro same
    cases same with
    | ok same => exact congrArg Except.ok same
    | stop => rfl
  · rintro rfl
    cases result with
    | ok a => exact .ok rfl
    | error stop => exact .stop stop

namespace Run

variable {σ τ α β γ δ : Type}

/-- From related states the second run follows the first to related states. -/
def Follows (excused : Stop → Prop) (states : σ → τ → Prop) (related : α → β → Prop)
    (x : Run σ α) (y : Run τ β) : Prop :=
  ∀ state other, states state other →
    Interaction.Follows (fun left => ∃ stop, left.1 = .error stop ∧ excused stop)
      (fun left right => SameEnd related left.1 right.1 ∧ states left.2 right.2)
      (x state) (y other)

namespace Follows

variable {excused : Stop → Prop} {states : σ → τ → Prop}
  {related : α → β → Prop} {related' : γ → δ → Prop}

theorem pure {a : α} {b : β} (same : related a b) :
    Follows excused states related (Pure.pure a : Run σ α) (Pure.pure b : Run τ β) := by
  intro state other start
  exact .done ⟨.ok same, start⟩

theorem fail (f : Fault) :
    Follows excused states related (Run.fail f : Run σ α) (Run.fail f : Run τ β) := by
  intro state other start
  exact .done ⟨.stop (.fault f), start⟩

theorem fail_of_excused {f : Fault} (excuse : excused (.fault f)) (y : Run τ β) :
    Follows excused states related (Run.fail f : Run σ α) y := by
  intro state other start
  exact .excused _ ⟨_, rfl, excuse⟩

theorem refl (excused : Stop → Prop) (x : Run σ α) : Follows excused Eq Eq x x := by
  rintro state _ rfl
  apply Interaction.Follows.refl
  intro left
  exact ⟨sameEnd_eq_iff.mpr rfl, rfl⟩

theorem of_eq (excused : Stop → Prop) {x y : Run σ α} (same : x = y) :
    Follows excused Eq Eq x y := by
  rw [same]
  exact .refl excused y

theorem trans
    {x y z : Run σ α} (first : Follows excused Eq Eq x y)
    (second : Follows excused Eq Eq y z) : Follows excused Eq Eq x z := by
  intro state other start
  apply (first state other start).trans (second other other rfl)
  · intro left right met stopped
    obtain ⟨stop, ended, excuse⟩ := stopped
    exact ⟨stop, (sameEnd_eq_iff.mp met.1).trans ended, excuse⟩
  · intro left middle right met met'
    have same := (sameEnd_eq_iff.mp met.1).trans (sameEnd_eq_iff.mp met'.1)
    exact ⟨sameEnd_eq_iff.mpr same, met.2.trans met'.2⟩

/-- What follows the first parts and then, for related results, the rests. -/
theorem bind
    {x : Run σ α} {y : Run τ β} {next : α → Run σ γ} {next' : β → Run τ δ}
    (first : Follows excused states related x y)
    (rest : ∀ a b, related a b → Follows excused states related' (next a) (next' b)) :
    Follows excused states related' (x >>= next) (y >>= next') := by
  intro state other start
  apply Interaction.Follows.bind (first state other start)
  · rintro ⟨result, middle⟩ ⟨result', middle'⟩ ⟨same, met⟩
    cases same with
    | ok same => exact rest _ _ same middle middle' met
    | stop stop => exact .done ⟨.stop stop, met⟩
  · rintro ⟨result, middle⟩ z ⟨stop, rfl, excuse⟩
    exact .excused z ⟨stop, rfl, excuse⟩

/-- Parts with equal results. -/
theorem bind_eq
    {x : Run σ α} {y : Run τ α} {next : α → Run σ γ} {next' : α → Run τ δ}
    (first : Follows excused states Eq x y)
    (rest : ∀ a, Follows excused states related' (next a) (next' a)) :
    Follows excused states related' (x >>= next) (y >>= next') := by
  apply first.bind
  rintro a _ rfl
  exact rest a

/-- What follows from the same state is played alike, unless the first is excused. -/
theorem play_eq
    {x y : Run σ α} (follows : Follows excused Eq Eq x y)
    {ω : Type} {bridge : Bridge ω} {world : ω} {state : σ}
    (finished : ∀ stop, (bridge.play world (x state)).result.1 = .error stop →
      ¬excused stop) :
    bridge.play world (y state) = bridge.play world (x state) := by
  have played := (follows state state rfl).play bridge world (by
    rintro ⟨stop, stopped, excuse⟩
    exact finished stop stopped excuse)
  obtain ⟨exchanges, ⟨same, last⟩, worlds⟩ := played
  exact Played.ext exchanges (Prod.ext (sameEnd_eq_iff.mp same).symm last.symm) worlds

end Follows

end Run

end EffectLisp
