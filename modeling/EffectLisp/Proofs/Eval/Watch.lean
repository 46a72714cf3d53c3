import EffectLisp.Proofs.Effect.Path
import EffectLisp.Proofs.Eval.Activation

/-!
# Watching an evaluation

A watched evaluation does what the evaluator does, and keeps a stack of the contexts
of the activations in progress.  It has a fixed number of frames for them, and the
frames are all that ends its recursion: where they run out it overflows, which may
do anything.  With one frame for each level that is left, and one more, it is the
evaluator, whatever an overflow would do.  So evaluation ends, and the stack tells
how deep it went.

What is kept through every step is that the contexts on the stack are deeper the
further in they are, and never beyond the limit.
-/

namespace EffectLisp.Eval

/-- What is seen of an evaluation: the contexts of the activations in progress, the
innermost first; the same as it was whenever an activation began; and every context
that was built. -/
structure Watch where
  serial : Nat
  active : List Context
  moments : List (List Context)
  built : List Context

abbrev Watched := Run Watch

namespace Watched

variable {α : Type}

def quiet (run : Evaluation α) : Watched α :=
  Run.focus Watch.serial (fun serial watch => { watch with serial }) run

def build (given : Except Fault Context) : Watched Context := do
  let ctx ← Run.ofExcept given
  modify fun watch => { watch with built := ctx :: watch.built }
  pure ctx

/-- An activation in a context is in progress until the run is done or stops. -/
def activated (ctx : Context) (run : Watched α) : Watched α := fun watch => do
  let active := ctx :: watch.active
  let (result, after) ← run { watch with active, moments := active :: watch.moments }
  pure (result, { after with active := after.active.tail })

/-- Evaluate with so many frames. -/
def eval (overflow : Context → Evaluator Watch) : Nat → Context → Evaluator Watch
  | 0, ctx, e => overflow ctx e
  | frames + 1, ctx, e =>
      activated ctx (activation ⟨quiet, build, eval overflow frames⟩ ctx e)

end Watched

namespace Watch

/-- Nothing is seen yet. -/
def start (serial : Nat) : Watch :=
  ⟨serial, [], [], []⟩

/-- A stack of activations, of which the outermost is in the context `root` or in a
deeper one. -/
structure Nested (root : Context) (active : List Context) : Prop where
  deeper : active.Pairwise fun inner outer => outer.depth < inner.depth
  limited : ∀ ctx ∈ active,
    root.depth ≤ ctx.depth ∧ ctx.depth ≤ ctx.maxDepth ∧ ctx.maxDepth = root.maxDepth

/-- The watch at a point of a plain evaluation where these activations are in
progress. -/
structure Tracks (root : Context) (active : List Context) (watch : Watch)
    (serial : Nat) : Prop where
  serial : watch.serial = serial
  active : watch.active = active
  moments : ∀ moment ∈ watch.moments, Nested root moment
  built : ∀ ctx ∈ watch.built, ctx.depth ≤ ctx.maxDepth ∧ ctx.maxDepth = root.maxDepth

end Watch

open Watch (Nested Tracks)

/-- Below a level and within the limit. -/
structure Below (ctx inner : Context) : Prop where
  deeper : ctx.depth < inner.depth
  limited : inner.depth ≤ inner.maxDepth
  sameLimit : inner.maxDepth = ctx.maxDepth

theorem Below.of_enter
    {ctx inner : Context} {scope : Scope Value} (entered : ctx.enter scope = .ok inner) :
    Below ctx inner := by
  obtain ⟨within, rfl⟩ := Context.enter_eq_ok_iff.mp entered
  constructor
  · exact Nat.lt_succ_self ctx.depth
  · exact within
  · rfl

theorem Below.trans
    {ctx middle inner : Context} (first : Below ctx middle) (second : Below middle inner) :
    Below ctx inner := by
  constructor
  · exact Nat.lt_trans first.deeper second.deeper
  · exact second.limited
  · exact second.sameLimit.trans first.sameLimit

theorem Below.room_lt
    {ctx inner : Context} (below : Below ctx inner) : inner.room < ctx.room := by
  have deeper := below.deeper
  have limited := below.limited
  have sameLimit := below.sameLimit
  unfold Context.room
  omega

theorem Watch.Nested.cons
    {root ctx inner : Context} {active : List Context}
    (nested : Nested root (ctx :: active)) (below : Below ctx inner) :
    Nested root (inner :: ctx :: active) := by
  have head := nested.limited ctx (by simp)
  have outer := List.pairwise_cons.mp nested.deeper
  constructor
  · apply List.pairwise_cons.mpr
    refine ⟨?_, nested.deeper⟩
    intro other member
    rcases List.mem_cons.mp member with rfl | further
    · exact below.deeper
    · exact Nat.lt_trans (outer.1 other further) below.deeper
  · intro other member
    rcases List.mem_cons.mp member with rfl | further
    · have deeper := below.deeper
      exact ⟨by omega, below.limited, below.sameLimit.trans head.2.2⟩
    · exact nested.limited other further

theorem length_le_of_deeper
    {lowest bound : Nat} {active : List Context}
    (deeper : active.Pairwise fun inner outer => outer.depth < inner.depth)
    (within : ∀ ctx ∈ active, lowest ≤ ctx.depth ∧ ctx.depth < bound) :
    active.length ≤ bound - lowest := by
  induction active generalizing bound with
  | nil => exact Nat.zero_le _
  | cons ctx active induction =>
      obtain ⟨outer, rest⟩ := List.pairwise_cons.mp deeper
      have head := within ctx (by simp)
      have shorter : active.length ≤ ctx.depth - lowest := by
        apply induction rest
        intro other member
        exact ⟨(within other (by simp [member])).1, outer other member⟩
      rw [List.length_cons]
      omega

/-- There is at most one activation on each level. -/
theorem Watch.Nested.length_le
    {root : Context} {active : List Context} (nested : Nested root active)
    (within : root.depth ≤ root.maxDepth) :
    active.length ≤ root.maxDepth - root.depth + 1 := by
  have bounded : active.length ≤ root.maxDepth + 1 - root.depth := by
    apply length_le_of_deeper nested.deeper
    intro ctx member
    obtain ⟨lowest, limited, sameLimit⟩ := nested.limited ctx member
    omega
  omega

section Following

variable {root ctx : Context} {active : List Context}

theorem follows_quiet {α : Type} (run : Evaluation α) :
    Run.Follows (fun _ => False) (Tracks root active) Eq (Watched.quiet run) run := by
  rintro watch _ ⟨rfl, stack, moments, built⟩
  rw [← Interaction.bind_pure (run watch.serial)]
  apply Interaction.Follows.bind (.refl (fun _ => rfl) (fun _ => False) _)
  · rintro ⟨result, serial⟩ _ rfl
    exact .done ⟨sameEnd_eq_iff.mpr rfl, rfl, stack, moments, built⟩
  · nofun

theorem follows_build
    {given : Except Fault Context}
    (limited : ∀ inner, given = .ok inner → Below ctx inner)
    (sameLimit : ctx.maxDepth = root.maxDepth) :
    Run.Follows (fun _ => False) (Tracks root active)
      (fun a b => a = b ∧ Below ctx b) (Watched.build given) (own.build given) := by
  cases given with
  | error f => exact .fail f
  | ok inner =>
      have below := limited inner rfl
      rintro watch serial ⟨number, stack, moments, built⟩
      refine .done ⟨.ok ⟨rfl, below⟩, number, stack, moments, ?_⟩
      intro other member
      rcases List.mem_cons.mp member with rfl | earlier
      · exact ⟨below.limited, below.sameLimit.trans sameLimit⟩
      · exact built other earlier

theorem follows_activated
    {α : Type} {x : Watched α} {y : Evaluation α} (nested : Nested root (ctx :: active))
    (follows : Run.Follows (fun _ => False) (Tracks root (ctx :: active)) Eq x y) :
    Run.Follows (fun _ => False) (Tracks root active) Eq (Watched.activated ctx x) y := by
  rintro watch serial ⟨number, stack, moments, built⟩
  have begun : Tracks root (ctx :: active)
      { watch with
        active := ctx :: watch.active
        moments := (ctx :: watch.active) :: watch.moments } serial := by
    refine ⟨number, congrArg _ stack, ?_, built⟩
    intro moment member
    rcases List.mem_cons.mp member with rfl | earlier
    · rw [stack]
      exact nested
    · exact moments moment earlier
  rw [← Interaction.bind_pure (y serial)]
  apply Interaction.Follows.bind (follows _ serial begun)
  · rintro ⟨result, after⟩ ⟨result', serial'⟩ ⟨same, number, stack, moments, built⟩
    exact .done ⟨same, number, congrArg List.tail stack, moments, built⟩
  · rintro _ _ ⟨_, _, impossible⟩
    exact impossible.elim

theorem follows_watched
    (overflow : Context → Evaluator Watch) {frames : Nat} (enough : ctx.room < frames)
    (nested : Nested root (ctx :: active)) (e : Value) :
    Run.Follows (fun _ => False) (Tracks root active) Eq
      (Watched.eval overflow frames ctx e) (eval ctx e) := by
  induction frames generalizing ctx active e with
  | zero => exact absurd enough (Nat.not_lt_zero _)
  | succ frames induction =>
      have sameLimit := (nested.limited ctx (by simp)).2.2
      have follow : Callbacks.Follow (fun _ => False) (Tracks root (ctx :: active))
          (fun a b => a = b ∧ Below ctx b)
          ⟨Watched.quiet, Watched.build, Watched.eval overflow frames⟩ own := by
        constructor
        · exact follows_quiet
        · rintro a _ ⟨rfl, below⟩
          rfl
        · rintro a _ scope ⟨rfl, below⟩
          exact follows_build (fun _ entered => below.trans (.of_enter entered)) sameLimit
        · rintro a _ frame ⟨rfl, below⟩
          apply follows_build _ sameLimit
          rintro _ ⟨⟩
          exact ⟨below.deeper, below.limited, below.sameLimit⟩
        · rintro a _ e ⟨rfl, below⟩
          have less := below.room_lt
          exact induction (by omega) (nested.cons below) e
      rw [eval_eq_activation]
      apply follows_activated nested
      apply follow.activation
      · exact fun name => .inl rfl
      · exact follows_build (fun _ entered => .of_enter entered) sameLimit

end Following

/-- Evaluation is the same on a stack with a frame for each level from its own to the
limit, whatever an overflow would do.  All contexts it builds are within the limit,
and so are those of the activations in progress at any moment, each in a deeper
context than the one around it, and no more of them than there are levels. -/
theorem exists_watch_of_eval
    {σ : Type} (bridge : Bridge σ) (world : σ) (ctx : Context) (e : Value) (serial : Nat)
    (overflow : Context → Evaluator Watch) (frames : Nat)
    (within : ctx.depth ≤ ctx.maxDepth)
    (enough : ctx.maxDepth - ctx.depth + 1 ≤ frames) :
    ∃ watch : Watch,
      bridge.play world (Watched.eval overflow frames ctx e (.start serial)) =
        { exchanges := (bridge.play world (eval ctx e serial)).exchanges
          result := ((bridge.play world (eval ctx e serial)).result.1, watch)
          world := (bridge.play world (eval ctx e serial)).world } ∧
      (∀ built ∈ watch.built, built.maxDepth = ctx.maxDepth ∧ built.depth ≤ ctx.maxDepth) ∧
      (∀ moment ∈ watch.moments,
        (∀ active ∈ moment, active.depth ≤ ctx.maxDepth) ∧
          moment.Pairwise (fun inner outer => outer.depth < inner.depth) ∧
          moment.length ≤ ctx.maxDepth - ctx.depth + 1) := by
  have alone : Nested ctx [ctx] := by
    constructor
    · exact List.pairwise_singleton _ ctx
    · intro other member
      rw [List.mem_singleton.mp member]
      exact ⟨Nat.le_refl _, within, rfl⟩
  have start : Tracks ctx [] (.start serial) serial := ⟨rfl, rfl, nofun, nofun⟩
  have follows := follows_watched overflow enough alone e _ serial start
  have played := follows.play bridge world (by
    rintro ⟨_, _, impossible⟩
    exact impossible)
  obtain ⟨exchanges, ⟨same, tracks⟩, worlds⟩ := played
  refine ⟨(bridge.play world (Watched.eval overflow frames ctx e (.start serial))).result.2,
    Played.ext exchanges.symm ?_ worlds.symm, ?_, ?_⟩
  · exact Prod.ext (sameEnd_eq_iff.mp same) rfl
  · intro built member
    obtain ⟨limited, sameLimit⟩ := tracks.built built member
    exact ⟨sameLimit, sameLimit ▸ limited⟩
  · intro moment member
    have nested := tracks.moments moment member
    refine ⟨?_, nested.deeper, nested.length_le within⟩
    intro active inside
    obtain ⟨_, limited, sameLimit⟩ := nested.limited active inside
    exact sameLimit ▸ limited

/-- A lambda that calls itself comes to the limit with three activations in progress,
the innermost of which stands for its operator or its operand. -/
theorem exists_watch_of_eval_self_application :
    let twice : Value :=
      .list [.symbol "lambda", .list [.symbol "f"], .list [.symbol "f", .symbol "f"]]
    let ctx := Context.root.withMaxDepth 3
    let overflow : Context → Evaluator Watch := fun _ _ => Run.crash .other
    ctx.depth ≤ ctx.maxDepth ∧ ctx.maxDepth - ctx.depth + 1 ≤ 4 ∧
      ∃ watch : Watch,
        Interaction.prepared.play []
            (Watched.eval overflow 4 ctx (.list [twice, twice]) (.start 0)) =
          ⟨[], (.error (.fault (.recursionLimit 3)), watch), []⟩ ∧
        (∀ built ∈ watch.built, built.maxDepth = 3 ∧ built.depth ≤ 3) ∧
        (∀ moment ∈ watch.moments,
          (∀ active ∈ moment, active.depth ≤ 3) ∧
            moment.Pairwise (fun inner outer => outer.depth < inner.depth) ∧
            moment.length ≤ 4) ∧
        watch.moments.map (·.map Context.depth) =
          [[3, 2, 0], [3, 2, 0], [2, 0], [1, 0], [1, 0], [0]] := by
  intro twice ctx overflow
  have plain : Interaction.prepared.play [] (eval ctx (.list [twice, twice]) 0) =
      ⟨[], (.error (.fault (.recursionLimit 3)), 2), []⟩ := by
    with_unfolding_all rfl
  obtain ⟨watch, same, built, moments⟩ :=
    exists_watch_of_eval Interaction.prepared [] ctx (.list [twice, twice]) 0 overflow
      4 (by decide) (by decide)
  rw [plain] at same
  refine ⟨by decide, by decide, watch, same, built, moments, ?_⟩
  have seen : (Interaction.prepared.play []
      (Watched.eval overflow 4 ctx (.list [twice, twice]) (.start 0))).result.2 = watch := by
    rw [same]
  rw [← seen]
  decide +kernel

end EffectLisp.Eval
