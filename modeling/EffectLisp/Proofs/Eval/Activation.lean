import EffectLisp.Proofs.Effect.Follows
import EffectLisp.Proofs.Eval.Closed

/-!
# Activations of the evaluator

An activation of the evaluator is what it does for one expression up to the
evaluation of the expressions within.  Those, the contexts that are built for them
and the parts that evaluate nothing are left to callbacks, so one activation is
written down once for all the ways of watching or bounding evaluation.  With its own
callbacks an activation is the evaluator.

Activations follow each other if their callbacks do, for contexts that are related
in whatever way.  This is the one place where the rules of evaluation are gone
through to compare two evaluations.
-/

namespace EffectLisp.Eval

/-- What an activation leaves to others: parts that evaluate nothing, the contexts
that are built, and the evaluation of an expression in one of those. -/
structure Callbacks (σ : Type) where
  quiet : {α : Type} → Evaluation α → Run σ α
  build : Except Fault Context → Run σ Context
  call : Context → Evaluator σ

section Activation

variable {σ : Type} (callbacks : Callbacks σ)

/-- A primitive gives its result itself, but for the one that evaluates a value. -/
def primitive (ctx : Context) : Primitive → List Value → Run σ Value
  | .evalValue, [v] => do
      let inner ← callbacks.build ctx.nested
      callbacks.call inner v
  | p, args => callbacks.quiet (p.run args)

/-- A call of a function, as part of the activation that it is made in. -/
def application (ctx : Context) (c : Callable Value) (args : List Value) : Run σ Value :=
  match c with
  | .primitive p => do
      callbacks.quiet (checkArity p.name p.arity args.length)
      primitive callbacks ctx p args
  | .lambda l => do
      callbacks.quiet (checkArity "lambda" (.exactly l.params.length) args.length)
      let entered ← callbacks.build (ctx.enter l.scope)
      let inner ← callbacks.build (.ok (entered.extend (l.params.zip args)))
      sequence (callbacks.call inner) l.body

def activation (ctx : Context) (e : Value) : Run σ Value :=
  match e with
  | .symbol name =>
      match ctx.find? name with
      | some v => pure v
      | none => Run.fail (.unbound name)
  | .list (head :: rest) => do
      let inner ← callbacks.build ctx.nested
      match SpecialForm.ofHead? head with
      | some .quote => callbacks.quiet (evalQuote rest)
      | some .ifThen => evalIf (callbacks.call inner) rest
      | some .lambda => callbacks.quiet (evalLambda inner.scope rest)
      | some .letIn => do
          let (bound, body) ← callbacks.quiet (letParts rest)
          let frame ← bindings (callbacks.call inner) bound
          let extended ← callbacks.build (.ok (inner.extend frame))
          sequence (callbacks.call extended) body
      | some .begin => sequence (callbacks.call inner) rest
      | some (.topLevelOnly name) => Run.fail (.badForm name .notAtTopLevel)
      | none => do
          let callee ← callbacks.call inner head
          let c ← callbacks.quiet (operator callee)
          let args ← operands (callbacks.call inner) rest
          application callbacks inner c args
  | other => pure other

end Activation

/-- The callbacks of the evaluator itself. -/
def own : Callbacks Nat :=
  ⟨id, Run.ofExcept, eval⟩

theorem apply_eq_application (ctx : Context) (c : Callable Value) (args : List Value) :
    apply ctx c args = application own ctx c args := by
  cases c with
  | primitive p =>
      unfold apply application
      apply congrArg (checkArity p.name p.arity args.length >>= ·)
      funext _
      split
      · rw [primitive]
        split
        · next refused => rw [refused]; rfl
        · next inner entered => rw [entered]; rfl
      · next notEval =>
          rw [primitive]
          · rfl
          · exact notEval
  | lambda l =>
      unfold apply application
      apply congrArg (checkArity "lambda" (.exactly l.params.length) args.length >>= ·)
      funext _
      split
      · next refused => rw [refused]; rfl
      · next inner entered => rw [entered]; rfl

/-- The evaluator is an activation that evaluates what is within by the evaluator. -/
theorem eval_eq_activation (ctx : Context) (e : Value) :
    eval ctx e = activation own ctx e := by
  unfold eval activation
  split
  · rfl
  · split
    · next refused => rw [refused]; rfl
    · next inner entered =>
        rw [entered]
        simp only [apply_eq_application]
        rfl
  · next notSymbol notList =>
      cases e with
      | symbol name => exact absurd rfl (notSymbol name)
      | list items =>
          cases items with
          | nil => rfl
          | cons head rest => exact absurd rfl (notList head rest)
      | _ => rfl

section Following

variable {σ τ : Type} {excused : Stop → Prop} {states : σ → τ → Prop}

section Evaluators

variable {evaluate : Evaluator σ} {other : Evaluator τ}
  (each : ∀ e, Run.Follows excused states Eq (evaluate e) (other e))

include each

theorem follows_sequenceFrom (last : Value) (body : List Value) :
    Run.Follows excused states Eq
      (sequenceFrom evaluate last body) (sequenceFrom other last body) := by
  induction body generalizing last with
  | nil => exact .pure rfl
  | cons e body induction => exact (each e).bind_eq induction

theorem follows_sequence (body : List Value) :
    Run.Follows excused states Eq (sequence evaluate body) (sequence other body) :=
  follows_sequenceFrom each .unit body

theorem follows_operands (es : List Value) :
    Run.Follows excused states Eq (operands evaluate es) (operands other es) := by
  induction es with
  | nil => exact .pure rfl
  | cons e es induction =>
      apply (each e).bind_eq
      intro v
      apply induction.bind_eq
      intro vs
      exact .pure rfl

theorem follows_evalIf (es : List Value) :
    Run.Follows excused states Eq (evalIf evaluate es) (evalIf other es) := by
  unfold evalIf
  split
  · apply (each _).bind_eq
    intro v
    split
    · exact each _
    · exact .pure rfl
  · apply (each _).bind_eq
    intro v
    split
    · exact each _
    · exact each _
  · exact .fail _

theorem follows_bindings (bound : List Value) :
    Run.Follows excused states Eq (bindings evaluate bound) (bindings other bound) := by
  fun_induction bindings evaluate bound with
  | case1 => exact .pure rfl
  | case2 e rest name induction =>
      apply (each e).bind_eq
      intro v
      apply induction.bind_eq
      intro frame
      exact .pure rfl
  | case3 e rest name notSymbol =>
      rw [bindings]
      · exact .fail _
      · exact notSymbol
  | case4 first rest notPair =>
      rw [bindings]
      · exact .fail _
      · exact notPair

end Evaluators

/-- Callbacks that follow others in contexts that are related to each other. -/
structure Callbacks.Follow (excused : Stop → Prop) (states : σ → τ → Prop)
    (inner : Context → Context → Prop) (callbacks : Callbacks σ) (others : Callbacks τ) :
    Prop where
  quiet : ∀ {α : Type} (run : Evaluation α),
    Run.Follows excused states Eq (callbacks.quiet run) (others.quiet run)
  scope : ∀ {ctx other : Context}, inner ctx other → other.scope = ctx.scope
  enter : ∀ {ctx other : Context} (scope : Scope Value), inner ctx other →
    Run.Follows excused states inner
      (callbacks.build (ctx.enter scope)) (others.build (other.enter scope))
  extend : ∀ {ctx other : Context} (frame : List (String × Value)), inner ctx other →
    Run.Follows excused states inner
      (callbacks.build (.ok (ctx.extend frame))) (others.build (.ok (other.extend frame)))
  call : ∀ {ctx other : Context} (e : Value), inner ctx other →
    Run.Follows excused states Eq (callbacks.call ctx e) (others.call other e)

namespace Callbacks.Follow

variable {inner : Context → Context → Prop} {callbacks : Callbacks σ}
  {others : Callbacks τ}
  (follow : Callbacks.Follow excused states inner callbacks others)
  {ctx other : Context}

include follow

theorem primitive (related : inner ctx other) (p : Primitive) (args : List Value) :
    Run.Follows excused states Eq
      (Eval.primitive callbacks ctx p args) (Eval.primitive others other p args) := by
  unfold Eval.primitive
  split
  · have nested := follow.enter ctx.scope related
    rw [Context.nested, Context.nested, follow.scope related]
    apply nested.bind
    intro a b within
    exact follow.call _ within
  · exact follow.quiet _

theorem application
    (related : inner ctx other) (c : Callable Value) (args : List Value) :
    Run.Follows excused states Eq
      (Eval.application callbacks ctx c args) (Eval.application others other c args) := by
  cases c with
  | primitive p =>
      apply (follow.quiet _).bind_eq
      intro _
      exact follow.primitive related p args
  | lambda l =>
      apply (follow.quiet _).bind_eq
      intro _
      apply (follow.enter l.scope related).bind
      intro entered entered' within
      apply (follow.extend _ within).bind
      intro a b extended
      exact follows_sequence (fun e => follow.call e extended) l.body

/-- Activations in contexts that agree on the names, but for a name that is excused
as unbound, and that build related contexts for what is within. -/
theorem activation
    (names : ∀ name, other.find? name = ctx.find? name ∨
      ctx.find? name = none ∧ excused (.fault (.unbound name)))
    (nested : Run.Follows excused states inner
      (callbacks.build ctx.nested) (others.build other.nested))
    (e : Value) :
    Run.Follows excused states Eq
      (Eval.activation callbacks ctx e) (Eval.activation others other e) := by
  unfold Eval.activation
  split
  · next name =>
      rcases names name with same | ⟨unbound, excuse⟩
      · rw [same]
        split
        · exact .pure rfl
        · exact .fail _
      · rw [unbound]
        exact .fail_of_excused excuse _
  · next head rest =>
      apply nested.bind
      intro a b within
      have each := fun e => follow.call e within
      split
      · exact follow.quiet _
      · exact follows_evalIf each rest
      · rw [follow.scope within]
        exact follow.quiet _
      · apply (follow.quiet _).bind_eq
        rintro ⟨bound, body⟩
        apply (follows_bindings each bound).bind_eq
        intro frame
        apply (follow.extend frame within).bind
        intro c d extended
        exact follows_sequence (fun e => follow.call e extended) body
      · exact follows_sequence each rest
      · exact .fail _
      · apply (each head).bind_eq
        intro callee
        apply (follow.quiet _).bind_eq
        intro c
        apply (follows_operands each rest).bind_eq
        intro args
        exact follow.application within c args
  · exact .pure rfl

end Callbacks.Follow

end Following

end EffectLisp.Eval
