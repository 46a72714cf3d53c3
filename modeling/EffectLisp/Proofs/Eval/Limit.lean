import EffectLisp.Proofs.Effect.Path
import EffectLisp.Proofs.Eval.Activation

/-!
# The limit cuts off and changes nothing

Evaluation in a context with more room follows evaluation in the context with less,
and only a report of the limit is excused.  So whatever else an expression comes to
within a limit, it comes to the same below any greater one, with the same requests.

The induction is on the room of the narrower context.  A lambda keeps no depth, so
a call in contexts that differ in room only is a call in such contexts again.
-/

namespace EffectLisp

/-- The report that evaluation went beyond some limit. -/
def Stop.IsLimit (stop : Stop) : Prop :=
  ∃ limit, stop = .fault (.recursionLimit limit)

namespace Context

/-- The same bindings, and at least as much room. -/
structure Roomier (ctx other : Context) : Prop where
  globals : other.globals = ctx.globals
  scope : other.scope = ctx.scope
  room : ctx.room ≤ other.room

namespace Roomier

variable {ctx other : Context}

theorem find?_eq (roomier : Roomier ctx other) (name : String) :
    other.find? name = ctx.find? name := by
  rw [Context.find?, Context.find?, roomier.scope, roomier.globals]

theorem extend (roomier : Roomier ctx other) (frame : List (String × Value)) :
    Roomier (ctx.extend frame) (other.extend frame) := by
  constructor
  · exact roomier.globals
  · exact congrArg (·.push frame) roomier.scope
  · exact roomier.room

/-- One level deeper there is either no room in the first context, or one level
less in both. -/
theorem enter_cases (roomier : Roomier ctx other) (scope : Scope Value) :
    ctx.enter scope = .error (.recursionLimit ctx.maxDepth) ∨
      ∃ inner outer, ctx.enter scope = .ok inner ∧ other.enter scope = .ok outer ∧
        Roomier inner outer ∧ inner.room < ctx.room := by
  have room := roomier.room
  unfold Context.room at room
  by_cases full : ctx.maxDepth < ctx.depth + 1
  · left
    rw [enter, if_pos full]
  · have free : ¬other.maxDepth < other.depth + 1 := by omega
    right
    have entered : ctx.enter scope = .ok { ctx with scope, depth := ctx.depth + 1 } :=
      if_neg full
    refine ⟨_, _, entered, if_neg free, ?_, room_lt_of_enter entered⟩
    constructor
    · exact roomier.globals
    · rfl
    · simp only [Context.room]
      omega

end Roomier

end Context

namespace Eval

open Context (Roomier)

theorem follows_enter
    {ctx other : Context} (roomier : Roomier ctx other) {bound : Nat}
    (within : ctx.room ≤ bound) (scope : Scope Value) :
    Run.Follows Stop.IsLimit Eq (fun a b => Roomier a b ∧ a.room < bound)
      (own.build (ctx.enter scope)) (own.build (other.enter scope)) := by
  rcases roomier.enter_cases scope with
    refused | ⟨inner, outer, entered, other_entered, inside, less⟩
  · rw [refused]
    exact .fail_of_excused ⟨_, rfl⟩ _
  · rw [entered, other_entered]
    exact .pure ⟨inside, Nat.lt_of_lt_of_le less within⟩

theorem follows_eval
    {ctx other : Context} (roomier : Roomier ctx other) (e : Value) :
    Run.Follows Stop.IsLimit Eq Eq (eval ctx e) (eval other e) := by
  have follow : Callbacks.Follow Stop.IsLimit Eq
      (fun a b => Roomier a b ∧ a.room < ctx.room) own own := by
    constructor
    · exact fun run => .refl _ run
    · exact fun within => within.1.scope
    · exact fun scope within => follows_enter within.1 (Nat.le_of_lt within.2) scope
    · exact fun frame within => .pure ⟨within.1.extend frame, within.2⟩
    · intro a b e within
      exact follows_eval within.1 e
  rw [eval_eq_activation, eval_eq_activation]
  apply follow.activation
  · exact fun name => .inl (roomier.find?_eq name)
  · unfold Context.nested
    rw [roomier.scope]
    exact follows_enter roomier (Nat.le_refl _) ctx.scope
termination_by ctx.room
decreasing_by exact within.2

/-- What an expression comes to within a limit, unless that is a report of the limit,
it comes to with more levels left as well, by the same exchanges. -/
theorem play_eval_of_room_le
    {σ : Type} (bridge : Bridge σ) (world : σ) {ctx wider : Context} (e : Value)
    (serial : Nat)
    (sameGlobals : wider.globals = ctx.globals)
    (sameScope : wider.scope = ctx.scope)
    (room : ctx.maxDepth - ctx.depth ≤ wider.maxDepth - wider.depth)
    (finished : ∀ limit, (bridge.play world (eval ctx e serial)).result.1 ≠
      .error (.fault (.recursionLimit limit))) :
    bridge.play world (eval wider e serial) = bridge.play world (eval ctx e serial) := by
  have roomier : Roomier ctx wider := ⟨sameGlobals, sameScope, room⟩
  apply (follows_eval roomier e).play_eq
  rintro stop stopped ⟨limit, rfl⟩
  exact finished limit stopped

/-- A lambda that is called in another and writes at the last level there is. -/
theorem play_eval_of_room_le_closure :
    let e : Value :=
      .list [.list [.symbol "lambda", .list [.symbol "f"], .list [.symbol "f", .string "v"]],
        .list [.symbol "lambda", .list [.symbol "x"],
          .list [.symbol "put", .string "a", .symbol "x"]]]
    let ctx := Context.root.withMaxDepth 5
    let wider : Context := { Context.root with depth := 7, maxDepth := 100 }
    let replies : List Reply := [.value (.string "v")]
    Interaction.prepared.play replies (eval ctx e 0) =
        ⟨[⟨.write "a" "v" .truncate, .value (.string "v")⟩], (.ok (.string "v"), 2), []⟩ ∧
      Interaction.prepared.play replies (eval wider e 0) =
        Interaction.prepared.play replies (eval ctx e 0) := by
  intro e ctx wider replies
  have played : Interaction.prepared.play replies (eval ctx e 0) =
      ⟨[⟨.write "a" "v" .truncate, .value (.string "v")⟩], (.ok (.string "v"), 2), []⟩ := by
    with_unfolding_all rfl
  refine ⟨played, play_eval_of_room_le _ _ e 0 rfl rfl (by decide) ?_⟩
  rw [played]
  nofun

end Eval

end EffectLisp
