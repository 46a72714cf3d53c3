import EffectLisp.Proofs.Eval.Limit

/-!
# Calls of functions by name

The parts of a call are evaluated one level deeper than the call itself.  That matters
to the limit only: but for a report of the limit, a call by name is its operands and
then the application, all of them in the context of the call.  So what a call comes to
is told without counting levels.
-/

namespace EffectLisp

namespace Context

theorem nested_cases (ctx : Context) :
    ctx.nested = .error (.recursionLimit ctx.maxDepth) ∨
      ∃ inner, ctx.nested = .ok inner ∧ Roomier inner ctx := by
  unfold nested enter
  split
  · exact .inl rfl
  · refine .inr ⟨_, rfl, rfl, rfl, ?_⟩
    simp only [room]
    omega

/-- The names of the primitives stand for them. -/
def Keeps (ctx : Context) (ps : List Primitive) : Prop :=
  ∀ p ∈ ps, ctx.find? p.name = some (.callable (.primitive p))

theorem keeps_root (ps : List Primitive) : root.Keeps ps := by
  intro p _
  cases p <;> rfl

end Context

theorem Primitive.ofName?_name (p : Primitive) : SpecialForm.ofName? p.name = none := by
  cases p <;> rfl

namespace Eval

open Context (Roomier)

theorem follow_own : Callbacks.Follow Stop.IsLimit Eq Roomier own own where
  quiet run := .refl _ run
  scope roomier := roomier.scope
  enter scope roomier := by
    rcases roomier.enter_cases scope with
      refused | ⟨inner, outer, entered, other_entered, inside, -⟩
    · rw [refused]
      exact .fail_of_excused ⟨_, rfl⟩ _
    · rw [entered, other_entered]
      exact .pure inside
  extend frame roomier := .pure (roomier.extend frame)
  call e roomier := follows_eval roomier e

theorem follows_apply
    {ctx other : Context} (roomier : Roomier ctx other) (c : Callable Value)
    (args : List Value) :
    Run.Follows Stop.IsLimit Eq Eq (apply ctx c args) (apply other c args) := by
  rw [apply_eq_application, apply_eq_application]
  exact follow_own.application roomier c args

variable {ctx : Context}

theorem eval_string (ctx : Context) (text : String) :
    eval ctx (.string text) = pure (.string text) := by
  rw [eval_eq_activation]
  rfl

theorem eval_symbol {name : String} {v : Value} (bound : ctx.find? name = some v) :
    eval ctx (.symbol name) = pure v := by
  rw [eval_eq_activation, activation, bound]

/-- Where there is no room for a form it is a report of the limit. -/
theorem follows_of_nested
    {head : Value} {rest : List Value} {run : Evaluation Value}
    (inside : ∀ inner, ctx.nested = .ok inner → Roomier inner ctx →
      Run.Follows Stop.IsLimit Eq Eq (eval ctx (.list (head :: rest))) run) :
    Run.Follows Stop.IsLimit Eq Eq (eval ctx (.list (head :: rest))) run := by
  rcases ctx.nested_cases with refused | ⟨inner, entered, roomier⟩
  · rw [eval_eq_activation, activation, refused]
    exact .fail_of_excused ⟨_, rfl⟩ _
  · exact inside inner entered roomier

theorem follows_quote (ctx : Context) (e : Value) :
    Run.Follows Stop.IsLimit Eq Eq (eval ctx (.list [.symbol "quote", e])) (pure e) := by
  apply follows_of_nested
  intro inner entered roomier
  rw [eval_eq_activation, activation, entered]
  exact .pure rfl

/-- Where there is room for it, a call by name is evaluated one level deeper. -/
theorem eval_call
    {inner : Context} (entered : ctx.nested = .ok inner) {name : String}
    (ordinary : SpecialForm.ofName? name = none) {c : Callable Value}
    (bound : inner.find? name = some (.callable c)) (es : List Value) :
    eval ctx (.list (.symbol name :: es)) = operands (eval inner) es >>= apply inner c := by
  have special : SpecialForm.ofHead? (.symbol name) = none := ordinary
  rw [funext (apply_eq_application inner c), eval_eq_activation, activation, entered]
  simp only [special, own, Run.ofExcept, eval_symbol bound, operator, pure_bind, id]

theorem follows_call
    {name : String} (ordinary : SpecialForm.ofName? name = none) {c : Callable Value}
    (bound : ctx.find? name = some (.callable c)) (es : List Value) :
    Run.Follows Stop.IsLimit Eq Eq (eval ctx (.list (.symbol name :: es)))
      (operands (eval ctx) es >>= apply ctx c) := by
  apply follows_of_nested
  intro inner entered roomier
  have found : inner.find? name = some (.callable c) :=
    (roomier.find?_eq name).symm.trans bound
  rw [eval_call entered ordinary found]
  apply (follows_operands (follows_eval roomier) es).bind_eq
  exact follows_apply roomier c

theorem apply_primitive
    (ctx : Context) {p : Primitive} (other : p ≠ .evalValue) {args : List Value}
    (accepted : p.arity.accepts args.length = true) :
    apply ctx (.primitive p) args = p.run args := by
  rw [apply_eq_application, application, checkArity, if_pos accepted]
  unfold primitive
  split
  · exact absurd rfl other
  · rfl

/-- Evaluating a value takes one level more than the value does. -/
theorem follows_apply_evalValue (ctx : Context) (v : Value) :
    Run.Follows Stop.IsLimit Eq Eq (apply ctx (.primitive .evalValue) [v]) (eval ctx v) := by
  rw [apply_eq_application]
  rcases ctx.nested_cases with refused | ⟨inner, entered, roomier⟩
  · rw [application, primitive, refused]
    exact .fail_of_excused ⟨_, rfl⟩ _
  · rw [application, primitive, entered]
    exact follows_eval roomier v

section Operands

variable {p : Primitive} (bound : ctx.find? p.name = some (.callable (.primitive p)))
  {e : Value} {run : Evaluation Value}
  (operand : Run.Follows Stop.IsLimit Eq Eq (eval ctx e) run)

include bound operand

theorem follows_unary :
    Run.Follows Stop.IsLimit Eq Eq (eval ctx (.list [.symbol p.name, e]))
      (run >>= fun v => apply ctx (.primitive p) [v]) := by
  apply (follows_call p.ofName?_name bound [e]).trans
  simp only [operands, bind_assoc, pure_bind]
  apply operand.bind_eq
  intro v
  exact .refl _ _

theorem follows_binary_string (text : String) :
    Run.Follows Stop.IsLimit Eq Eq (eval ctx (.list [.symbol p.name, .string text, e]))
      (run >>= fun v => apply ctx (.primitive p) [.string text, v]) := by
  apply (follows_call p.ofName?_name bound [.string text, e]).trans
  simp only [operands, eval_string, bind_assoc, pure_bind]
  apply operand.bind_eq
  intro v
  exact .refl _ _

end Operands

end Eval

end EffectLisp
