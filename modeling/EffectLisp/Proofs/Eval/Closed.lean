import EffectLisp.Eval
import EffectLisp.Proofs.Datum.Refusal

/-!
# Properties of every evaluation

A property of runs that holds of the steps of evaluation and of every sequence of
such runs holds of every evaluation.  Evaluation never panics by itself, and it
reports an internal fault only for the answer to a probe, so of panics and of
other internal faults the property is not asked.
-/

namespace EffectLisp

theorem Context.not_isInternal_of_enter
    {ctx : Context} {scope : Scope Value} {f : Fault}
    (refused : ctx.enter scope = .error f) : ¬f.IsInternal := by
  obtain ⟨-, rfl⟩ := enter_eq_error_iff.mp refused
  exact id

theorem Arity.eq_singleton
    {args : List Value} (accepted : (exactly 1).accepts args.length = true) :
    ∃ v, args = [v] := by
  rw [accepts, decide_eq_true_iff] at accepted
  exact List.length_eq_one_iff.mp accepted

theorem Arity.eq_pair
    {args : List Value} (accepted : (exactly 2).accepts args.length = true) :
    ∃ v w, args = [v, w] := by
  rw [accepts, decide_eq_true_iff] at accepted
  exact ⟨_, _, List.eq_getElem_of_length_eq_two args accepted⟩

namespace Run

theorem fail_bind {σ α β : Type} (f : Fault) (next : α → Run σ β) :
    (fail f >>= next) = fail f := rfl

/-- The property holds of the steps that runs are made of, and of what is made of
runs that have it. -/
structure Closed (P : ∀ {σ α : Type}, Run σ α → Prop) : Prop where
  pure : ∀ {σ α : Type} (a : α), P (Pure.pure a : Run σ α)
  bind : ∀ {σ α β : Type} {first : Run σ α} {next : α → Run σ β},
    P first → (∀ a, P (next a)) → P (first >>= next)
  fail : ∀ {σ α : Type} {f : Fault}, ¬f.IsInternal → P (Run.fail f : Run σ α)
  getState : ∀ {σ : Type}, P (get : Run σ σ)
  setState : ∀ {σ : Type} (state : σ), P (set state : Run σ PUnit)
  modifyState : ∀ {σ : Type} (change : σ → σ), P (modify change : Run σ PUnit)
  probe : ∀ path : String, P (Primitive.probe path)
  perform : ∀ effect : Effect, (∀ path, effect ≠ .probe path) →
    P (Run.perform effect : Evaluation Value)
  focus : ∀ {σ τ α : Type} (get : τ → σ) (set : σ → τ → τ) {run : Run σ α},
    P run → P (Run.focus get set run)

namespace Closed

variable {P : ∀ {σ α : Type}, Run σ α → Prop}

section

variable (closed : Closed @P)

include closed

theorem ofExcept
    {σ α : Type} {given : Except Fault α}
    (ordinary : ∀ f, given = .error f → ¬f.IsInternal) :
    P (Run.ofExcept given : Run σ α) := by
  cases given with
  | ok a => exact closed.pure a
  | error f => exact closed.fail (ordinary f rfl)

section Primitives

theorem textOf (expected : Shape) (v : Value) : P (Primitive.textOf expected v) := by
  cases v with
  | string text => exact closed.pure text
  | _ => exact closed.fail id

theorem numberOf (v : Value) : P (Primitive.numberOf v) := by
  cases v with
  | number x => exact closed.pure x
  | _ => exact closed.fail id

theorem itemsOf (v : Value) : P (Primitive.itemsOf v) := by
  cases v with
  | list items => exact closed.pure items
  | _ => exact closed.fail id

theorem lengthOf (v : Value) : P (Primitive.lengthOf v) := by
  cases v with
  | list items => exact closed.pure items.length
  | string text => exact closed.pure text.length
  | _ => exact closed.fail id

theorem numbersOf (vs : List Value) : P (Primitive.numbersOf vs) := by
  induction vs with
  | nil => exact closed.pure []
  | cons v vs induction =>
      refine closed.bind (closed.numberOf v) fun x => ?_
      exact closed.bind induction fun xs => closed.pure (x :: xs)

theorem textsOf (vs : List Value) : P (Primitive.textsOf vs) := by
  induction vs with
  | nil => exact closed.pure []
  | cons v vs induction =>
      refine closed.bind (closed.textOf .string v) fun text => ?_
      exact closed.bind induction fun texts => closed.pure (text :: texts)

theorem readFile (path : String) : P (Primitive.readFile path) := by
  refine closed.bind (closed.probe path) fun found => ?_
  split
  · exact closed.perform (.read path) nofun
  · exact closed.fail id

theorem writeFile (mode : WriteMode) (path content : Value) :
    P (Primitive.writeFile mode path content) := by
  refine closed.bind (closed.textOf .path path) fun path => ?_
  refine closed.bind (closed.textOf .content content) fun content => ?_
  exact closed.perform (.write path content mode) nofun

/-- A primitive with as many arguments as it accepts does not reach past them. -/
theorem primitive
    {p : Primitive} (other : p ≠ .evalValue) {args : List Value}
    (accepted : p.arity.accepts args.length = true) : P (p.run args) := by
  cases p with
  | slurp =>
      obtain ⟨path, rfl⟩ := Arity.eq_singleton accepted
      exact closed.bind (closed.textOf .string path) fun path => closed.readFile path
  | put =>
      obtain ⟨path, content, rfl⟩ := Arity.eq_pair accepted
      exact closed.writeFile .truncate path content
  | append =>
      obtain ⟨path, content, rfl⟩ := Arity.eq_pair accepted
      exact closed.writeFile .append path content
  | fileExists =>
      obtain ⟨path, rfl⟩ := Arity.eq_singleton accepted
      refine closed.bind (closed.textOf .string path) fun path => ?_
      exact closed.bind (closed.probe path) fun found => closed.pure _
  | wslurp =>
      obtain ⟨url, rfl⟩ := Arity.eq_singleton accepted
      refine closed.bind (closed.textOf .url url) fun url => ?_
      exact closed.perform (.fetch url) nofun
  | showValue =>
      obtain ⟨v, rfl⟩ := Arity.eq_singleton accepted
      refine closed.bind (closed.ofExcept ?_) fun text => closed.pure _
      exact fun f refused => Datum.not_isInternal_of_showValue refused
  | parseText =>
      obtain ⟨text, rfl⟩ := Arity.eq_singleton accepted
      refine closed.bind (closed.textOf .string text) fun text => closed.ofExcept ?_
      exact fun f refused => Datum.not_isInternal_of_read refused
  | evalValue => exact absurd rfl other
  | add => exact closed.bind (closed.numbersOf args) fun xs => closed.pure _
  | subtract => exact closed.bind (closed.numbersOf args) fun xs => closed.pure _
  | multiply => exact closed.bind (closed.numbersOf args) fun xs => closed.pure _
  | divide => exact closed.bind (closed.numbersOf args) fun xs => closed.pure _
  | equal =>
      obtain ⟨v, w, rfl⟩ := Arity.eq_pair accepted
      exact closed.pure _
  | less =>
      obtain ⟨v, w, rfl⟩ := Arity.eq_pair accepted
      refine closed.bind (closed.numberOf v) fun x => ?_
      exact closed.bind (closed.numberOf w) fun y => closed.pure _
  | greater =>
      obtain ⟨v, w, rfl⟩ := Arity.eq_pair accepted
      refine closed.bind (closed.numberOf v) fun x => ?_
      exact closed.bind (closed.numberOf w) fun y => closed.pure _
  | list => exact closed.pure _
  | head =>
      obtain ⟨v, rfl⟩ := Arity.eq_singleton accepted
      refine closed.bind (closed.itemsOf v) fun items => ?_
      cases items with
      | nil => exact closed.fail id
      | cons first rest => exact closed.pure first
  | tail =>
      obtain ⟨v, rfl⟩ := Arity.eq_singleton accepted
      refine closed.bind (closed.itemsOf v) fun items => ?_
      cases items with
      | nil => exact closed.fail id
      | cons first rest => exact closed.pure _
  | cons =>
      obtain ⟨v, rest, rfl⟩ := Arity.eq_pair accepted
      exact closed.bind (closed.itemsOf rest) fun items => closed.pure _
  | length =>
      obtain ⟨v, rfl⟩ := Arity.eq_singleton accepted
      exact closed.bind (closed.lengthOf v) fun count => closed.pure _
  | isNull =>
      obtain ⟨v, rfl⟩ := Arity.eq_singleton accepted
      exact closed.bind (closed.itemsOf v) fun items => closed.pure _
  | concat => exact closed.bind (closed.textsOf args) fun texts => closed.pure _
  | lines =>
      obtain ⟨text, rfl⟩ := Arity.eq_singleton accepted
      exact closed.bind (closed.textOf .string text) fun text => closed.pure _

end Primitives

section Forms

open Eval (Evaluator)

variable {σ : Type} {evaluate : Evaluator σ} (each : ∀ e, P (evaluate e))

theorem checkArity (name : String) (expected : Arity) (given : Nat) :
    P (Eval.checkArity name expected given) := by
  unfold Eval.checkArity
  split
  · exact closed.pure ()
  · exact closed.fail id

theorem operator (v : Value) : P (Eval.operator v) := by
  cases v with
  | callable c => exact closed.pure c
  | _ => exact closed.fail id

theorem letParts (operands : List Value) : P (Eval.letParts operands) := by
  unfold Eval.letParts
  split
  · exact closed.pure _
  · exact closed.fail id

theorem evalQuote (operands : List Value) : P (Eval.evalQuote operands) := by
  unfold Eval.evalQuote
  split
  · exact closed.pure _
  · exact closed.fail id

theorem parameterNames (form : String) (params : List Value) :
    P (Eval.parameterNames form params) := by
  fun_induction Eval.parameterNames form params with
  | case1 => exact closed.pure []
  | case2 name params induction =>
      exact closed.bind induction fun names => closed.pure _
  | case3 => exact closed.fail id

theorem makeLambda (scope : Scope Value) (params : List String) (body : List Value) :
    P (Eval.makeLambda scope params body) := by
  refine closed.bind closed.getState fun serial => ?_
  exact closed.bind (closed.setState _) fun _ => closed.pure _

theorem evalLambda (scope : Scope Value) (operands : List Value) :
    P (Eval.evalLambda scope operands) := by
  unfold Eval.evalLambda
  split
  · split
    · refine closed.bind (closed.parameterNames "lambda" _) fun names => ?_
      exact closed.makeLambda scope names _
    · exact closed.fail id
  · exact closed.fail id

include each

theorem sequenceFrom (last : Value) (body : List Value) :
    P (Eval.sequenceFrom evaluate last body) := by
  induction body generalizing last with
  | nil => exact closed.pure last
  | cons e body induction => exact closed.bind (each e) induction

theorem sequence (body : List Value) : P (Eval.sequence evaluate body) :=
  closed.sequenceFrom each .unit body

theorem operands (es : List Value) : P (Eval.operands evaluate es) := by
  induction es with
  | nil => exact closed.pure []
  | cons e es induction =>
      refine closed.bind (each e) fun v => ?_
      exact closed.bind induction fun vs => closed.pure (v :: vs)

theorem evalIf (operands : List Value) : P (Eval.evalIf evaluate operands) := by
  unfold Eval.evalIf
  split
  · refine closed.bind (each _) fun v => ?_
    split
    · exact each _
    · exact closed.pure Value.unit
  · refine closed.bind (each _) fun v => ?_
    split
    · exact each _
    · exact each _
  · exact closed.fail id

theorem bindings (bound : List Value) : P (Eval.bindings evaluate bound) := by
  fun_induction Eval.bindings evaluate bound with
  | case1 => exact closed.pure []
  | case2 e rest name induction =>
      refine closed.bind (each e) fun v => ?_
      exact closed.bind induction fun frame => closed.pure ((name, v) :: frame)
  | case3 => exact closed.fail id
  | case4 => exact closed.fail id

end Forms

end

mutual

/-- The property holds of the evaluation of every expression. -/
theorem eval (closed : Closed @P) (ctx : Context) (e : Value) :
    P (Eval.eval ctx e) := by
  unfold Eval.eval
  split
  · split
    · exact closed.pure _
    · exact closed.fail id
  · split
    · next refused => exact closed.fail (Context.not_isInternal_of_enter refused)
    · next inner entered =>
        have each : ∀ e, P (Eval.eval inner e) := fun e => closed.eval inner e
        split
        · exact closed.evalQuote _
        · exact closed.evalIf each _
        · exact closed.evalLambda inner.scope _
        · refine closed.bind (closed.letParts _) fun ⟨bound, body⟩ => ?_
          refine closed.bind (closed.bindings each bound) fun frame => ?_
          exact closed.sequence (fun e => closed.eval (inner.extend frame) e) body
        · exact closed.sequence each _
        · exact closed.fail id
        · refine closed.bind (each _) fun callee => ?_
          refine closed.bind (closed.operator callee) fun c => ?_
          refine closed.bind (closed.operands each _) fun args => ?_
          exact closed.apply inner c args
  · exact closed.pure e
termination_by ctx.room
decreasing_by all_goals simpa using Context.room_lt_of_nested ‹_›

/-- The property holds of every call. -/
theorem apply (closed : Closed @P) (ctx : Context) (c : Callable Value)
    (args : List Value) : P (Eval.apply ctx c args) := by
  unfold Eval.apply
  split
  · next p =>
      by_cases accepted : p.arity.accepts args.length = true
      · refine closed.bind (closed.checkArity _ _ _) fun _ => ?_
        split
        · split
          · next refused =>
              exact closed.fail (Context.not_isInternal_of_enter refused)
          · next inner entered => exact closed.eval inner _
        · next notEval =>
            refine closed.primitive ?_ accepted
            rintro rfl
            obtain ⟨v, rfl⟩ := Arity.eq_singleton accepted
            exact notEval v rfl rfl
      · rw [Eval.checkArity, if_neg accepted, fail_bind]
        exact closed.fail id
  · refine closed.bind (closed.checkArity _ _ _) fun _ => ?_
    split
    · next refused => exact closed.fail (Context.not_isInternal_of_enter refused)
    · next inner entered =>
        exact closed.sequence (fun e => closed.eval _ e) _
termination_by ctx.room
decreasing_by all_goals simpa using Context.room_lt_of_enter ‹_›

end

end Closed

end Run

end EffectLisp
