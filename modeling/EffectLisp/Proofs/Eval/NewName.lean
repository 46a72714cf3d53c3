import EffectLisp.Proofs.Effect.Path
import EffectLisp.Proofs.Eval.Activation

/-!
# A new global name disturbs nothing

Evaluation with one more global name follows evaluation without it, and only a report
that the name is unbound is excused.  No evaluation recovers from that report, so an
expression that comes to anything else has never asked for the name, in whatever scope
and in whatever code that was made on the way.

Where a local frame binds the name the local value counts with and without the
definition, so nothing is asked of the scopes.
-/

namespace EffectLisp

/-- The report that a name is unbound. -/
def Stop.reportsUnbound (name : String) : Stop :=
  .fault (.unbound name)

namespace Context

/-- The same context but for a global name that had no binding. -/
structure Gains (name : String) (v : Value) (ctx other : Context) : Prop where
  unbound : ctx.globals.find? name = none
  defined : other = ctx.define name v

namespace Gains

variable {name : String} {v : Value} {ctx other : Context}

theorem extend (gains : Gains name v ctx other) (frame : List (String × Value)) :
    Gains name v (ctx.extend frame) (other.extend frame) :=
  ⟨gains.unbound, congrArg (·.extend frame) gains.defined⟩

theorem scope_eq (gains : Gains name v ctx other) : other.scope = ctx.scope := by
  rw [gains.defined, define]

/-- Every name but the new one means the same, and so does the new one where a frame
binds it. -/
theorem find?_cases (gains : Gains name v ctx other) (asked : String) :
    other.find? asked = ctx.find? asked ∨ ctx.find? asked = none ∧ asked = name := by
  rw [gains.defined, define, find?, find?]
  cases localValue : ctx.scope.find? asked with
  | some w => exact .inl rfl
  | none =>
      by_cases same : asked = name
      · subst same
        exact .inr ⟨gains.unbound, rfl⟩
      · left
        exact Globals.find?_insert_of_ne ctx.globals v same

/-- One level deeper both are refused alike, or neither is. -/
theorem enter_cases (gains : Gains name v ctx other) (scope : Scope Value) :
    (∃ f, ctx.enter scope = .error f ∧ other.enter scope = .error f) ∨
      ∃ inner outer, ctx.enter scope = .ok inner ∧ other.enter scope = .ok outer ∧
        Gains name v inner outer ∧ inner.room < ctx.room := by
  have limit : other.maxDepth = ctx.maxDepth := by rw [gains.defined, define]
  have depth : other.depth = ctx.depth := by rw [gains.defined, define]
  by_cases full : ctx.maxDepth < ctx.depth + 1
  · left
    refine ⟨.recursionLimit ctx.maxDepth, if_pos full, ?_⟩
    rw [enter, limit, depth, if_pos full]
  · right
    have entered : ctx.enter scope = .ok { ctx with scope, depth := ctx.depth + 1 } :=
      if_neg full
    refine ⟨_, _, entered, ?_, ⟨gains.unbound, rfl⟩, room_lt_of_enter entered⟩
    rw [enter, limit, depth, if_neg full, gains.defined]
    rfl

end Gains

end Context

namespace Eval

open Context (Gains)

variable {name : String} {v : Value}

theorem follows_enter_of_gains
    {ctx other : Context} (gains : Gains name v ctx other) {bound : Nat}
    (within : ctx.room ≤ bound) (scope : Scope Value) :
    Run.Follows (· = .reportsUnbound name) Eq
      (fun a b => Gains name v a b ∧ a.room < bound)
      (own.build (ctx.enter scope)) (own.build (other.enter scope)) := by
  rcases gains.enter_cases scope with
    ⟨f, refused, other_refused⟩ | ⟨inner, outer, entered, other_entered, inside, less⟩
  · rw [refused, other_refused]
    exact .fail f
  · rw [entered, other_entered]
    exact .pure ⟨inside, Nat.lt_of_lt_of_le less within⟩

theorem follows_eval_of_gains
    {ctx other : Context} (gains : Gains name v ctx other) (e : Value) :
    Run.Follows (· = .reportsUnbound name) Eq Eq (eval ctx e) (eval other e) := by
  have follow : Callbacks.Follow (· = .reportsUnbound name) Eq
      (fun a b => Gains name v a b ∧ a.room < ctx.room) own own := by
    constructor
    · exact fun run => .refl _ run
    · exact fun within => within.1.scope_eq
    · exact fun scope within =>
        follows_enter_of_gains within.1 (Nat.le_of_lt within.2) scope
    · exact fun frame within => .pure ⟨within.1.extend frame, within.2⟩
    · intro a b e within
      exact follows_eval_of_gains within.1 e
  rw [eval_eq_activation, eval_eq_activation]
  apply follow.activation
  · intro asked
    rcases gains.find?_cases asked with same | ⟨unbound, rfl⟩
    · exact .inl same
    · exact .inr ⟨unbound, rfl⟩
  · unfold Context.nested
    rw [gains.scope_eq]
    exact follows_enter_of_gains gains (Nat.le_refl _) ctx.scope
termination_by ctx.room
decreasing_by exact within.2

/-- Unless an expression comes to the report that a name is unbound, a first global
definition of that name changes nothing of it: neither the exchanges nor the result, in
which also every lambda is the same, nor the world it leaves. -/
theorem play_eval_define_of_unbound
    {σ : Type} (bridge : Bridge σ) (world : σ) (ctx : Context) (name : String) (v : Value)
    (e : Value) (serial : Nat)
    (unbound : ctx.globals.find? name = none)
    (finished : (bridge.play world (eval ctx e serial)).result.1 ≠
      .error (.fault (.unbound name))) :
    bridge.play world (eval (ctx.define name v) e serial) =
      bridge.play world (eval ctx e serial) := by
  have gains : Gains name v ctx (ctx.define name v) := ⟨unbound, rfl⟩
  apply (follows_eval_of_gains gains e).play_eq
  rintro stop stopped rfl
  exact finished stopped

/-- A closure that was made where the name is local is called where it is global, and a
symbol that is evaluated as data stands for the local value. -/
theorem play_eval_define_of_unbound_shadowed :
    let closure : Value := .callable (.lambda ⟨0, [], [.symbol "x"], ⟨[[("x", .string "v")]]⟩⟩)
    let ctx := Context.root.define "f" closure
    let e : Value :=
      .list [.symbol "let", .list [.list [.symbol "x", .string "a"]],
        .list [.symbol "put", .list [.symbol "eval", .list [.symbol "quote", .symbol "x"]],
          .list [.symbol "f"]]]
    let replies : List Reply := [.value (.string "v")]
    ctx.globals.find? "x" = none ∧
      Interaction.prepared.play replies (eval ctx e 1) =
        ⟨[⟨.write "a" "v" .truncate, .value (.string "v")⟩], (.ok (.string "v"), 1), []⟩ ∧
      Interaction.prepared.play replies (eval (ctx.define "x" (.bool true)) e 1) =
        Interaction.prepared.play replies (eval ctx e 1) := by
  intro closure ctx e replies
  have unbound : ctx.globals.find? "x" = none := by with_unfolding_all rfl
  have played : Interaction.prepared.play replies (eval ctx e 1) =
      ⟨[⟨.write "a" "v" .truncate, .value (.string "v")⟩], (.ok (.string "v"), 1), []⟩ := by
    with_unfolding_all rfl
  refine ⟨unbound, played, play_eval_define_of_unbound _ _ ctx "x" _ e 1 unbound ?_⟩
  rw [played]
  nofun

end Eval

end EffectLisp
