import EffectLisp.Proofs.Effect.Mirror
import EffectLisp.Proofs.Eval.Call

/-!
# Evaluation under other serial numbers

The evaluator gives serial numbers to lambdas and asks of them only whether two are the
same.  So evaluation commutes with every change of numbers that keeps different numbers
different and goes on with those that are given out next: under the change it makes the
same requests and comes to the result under the change.

In particular it does not matter from which number on lambdas are numbered.
-/

namespace EffectLisp

namespace Scope

variable {V W : Type} (g : V → W)

theorem frameFind?_map (frame : List (String × V)) (name : String) :
    frameFind? (frame.map fun binding => (binding.1, g binding.2)) name =
      (frameFind? frame name).map g := by
  rw [frameFind?, ← List.map_reverse, List.find?_map, Option.map_map, frameFind?,
    Option.map_map]
  rfl

theorem find?_map (scope : Scope V) (name : String) :
    (scope.map g).find? name = (scope.find? name).map g := by
  rw [find?, map, List.findSome?_map, find?, List.map_findSome?]
  congr 1
  funext frame
  exact frameFind?_map g frame name

end Scope

/-- The globals with the numbers of lambdas in their values changed. -/
def Globals.renumber (f : Nat → Nat) (globals : Globals) : Globals :=
  ⟨globals.entries.map fun entry => (entry.1, entry.2.renumber f)⟩

theorem Globals.find?_renumber (f : Nat → Nat) (globals : Globals) (name : String) :
    (globals.renumber f).find? name = (globals.find? name).map (Value.renumber f) := by
  rw [find?, renumber, List.find?_map, Option.map_map, find?, Option.map_map]
  rfl

namespace Context

variable (f : Nat → Nat)

/-- The context with the numbers of lambdas in all bound values changed. -/
def renumber (ctx : Context) : Context :=
  { ctx with
    globals := ctx.globals.renumber f
    scope := ctx.scope.map (Value.renumber f) }

theorem find?_renumber (ctx : Context) (name : String) :
    (ctx.renumber f).find? name = (ctx.find? name).map (Value.renumber f) := by
  rw [find?, renumber, Scope.find?_map, Globals.find?_renumber, find?]
  cases ctx.scope.find? name <;> rfl

theorem enter_renumber (ctx : Context) (scope : Scope Value) :
    (ctx.renumber f).enter (scope.map (Value.renumber f)) =
      ((ctx.enter scope).map (renumber f)).mapError (·.renumber f) := by
  rw [enter, enter, renumber]
  split <;> rfl

theorem nested_renumber (ctx : Context) :
    (ctx.renumber f).nested =
      (ctx.nested.map (renumber f)).mapError (·.renumber f) :=
  enter_renumber f ctx ctx.scope

theorem extend_renumber (ctx : Context) (frame : List (String × Value)) :
    (ctx.extend frame).renumber f =
      (ctx.renumber f).extend
        (frame.map fun binding => (binding.1, binding.2.renumber f)) := rfl

/-- Every lambda in a bound value has a number before this one. -/
structure MadeBefore (serial : Nat) (ctx : Context) : Prop where
  globals : ∀ entry ∈ ctx.globals.entries, entry.2.MadeBefore serial
  scope : ∀ frame ∈ ctx.scope.frames, ∀ binding ∈ frame, binding.2.MadeBefore serial

theorem MadeBefore.renumber_skip
    {serial : Nat} {ctx : Context} (before : ctx.MadeBefore serial) :
    ctx.renumber (skip serial) = ctx := by
  have globals : ctx.globals.renumber (skip serial) = ctx.globals :=
    congrArg Globals.mk <| Value.bindings_map_renumber_eq_self fun entry member =>
      (before.globals entry member).renumber_skip
  have scope : ctx.scope.map (Value.renumber (skip serial)) = ctx.scope :=
    Value.scope_map_renumber_eq_self fun frame around binding member =>
      (before.scope frame around binding member).renumber_skip
  rw [renumber, globals, scope]

end Context

namespace Run.Mirrors

variable {f : Nat → Nat}

theorem string (text : String) :
    Mirrors f (Value.renumber f) (Pure.pure (Value.string text)) (Pure.pure (Value.string text)) := by
  have result := Mirrors.pure (f := f) (g := Value.renumber f) (.string text)
  rwa [Value.renumber_string] at result

theorem number (x : Float) :
    Mirrors f (Value.renumber f) (Pure.pure (Value.number x)) (Pure.pure (Value.number x)) := by
  have result := Mirrors.pure (f := f) (g := Value.renumber f) (.number x)
  rwa [Value.renumber_number] at result

theorem bool (b : Bool) :
    Mirrors f (Value.renumber f) (Pure.pure (Value.bool b)) (Pure.pure (Value.bool b)) := by
  have result := Mirrors.pure (f := f) (g := Value.renumber f) (.bool b)
  rwa [Value.renumber_bool] at result

theorem list (items : List Value) :
    Mirrors f (Value.renumber f) (Pure.pure (Value.list items))
      (Pure.pure (Value.list (items.map (Value.renumber f)))) := by
  rw [← Value.renumber_list]
  exact .pure (Value.list items)

theorem callable (c : Callable Value) :
    Mirrors f (Value.renumber f) (Pure.pure (Value.callable c)) (Pure.pure (Value.callable (c.renumber f))) := by
  rw [← Value.renumber_callable]
  exact .pure (Value.callable c)

end Run.Mirrors

namespace Primitive

open Run (Mirrors)

variable {f : Nat → Nat}

theorem mirrors_mismatch
    {α β : Type} {g : α → β} (expected : Shape) (c : Callable Value) :
    Mirrors f g (Run.fail (.typeMismatch expected (.callable c)))
      (Run.fail (.typeMismatch expected (.callable (c.renumber f)))) := by
  rw [← Value.renumber_callable]
  exact .fail (.typeMismatch expected (.callable c))

theorem mirrors_textOf (expected : Shape) (v : Value) :
    Mirrors f id (textOf expected v) (textOf expected (v.renumber f)) := by
  cases v with
  | string text => exact .pure text
  | callable c =>
      rw [Value.renumber_callable]
      exact mirrors_mismatch expected c
  | _ => exact .fail _

theorem mirrors_numberOf (v : Value) :
    Mirrors f id (numberOf v) (numberOf (v.renumber f)) := by
  cases v with
  | number x => exact .pure x
  | callable c =>
      rw [Value.renumber_callable]
      exact mirrors_mismatch .number c
  | _ => exact .fail _

theorem mirrors_itemsOf (v : Value) :
    Mirrors f (List.map (Value.renumber f)) (itemsOf v) (itemsOf (v.renumber f)) := by
  cases v with
  | list items =>
      rw [Value.renumber_list]
      exact .pure items
  | callable c =>
      rw [Value.renumber_callable]
      exact mirrors_mismatch .list c
  | _ => exact .fail _

theorem mirrors_lengthOf (v : Value) :
    Mirrors f id (lengthOf v) (lengthOf (v.renumber f)) := by
  cases v with
  | list items =>
      rw [Value.renumber_list, lengthOf, lengthOf, List.length_map]
      exact .pure items.length
  | string text => exact .pure text.length
  | callable c =>
      rw [Value.renumber_callable]
      exact mirrors_mismatch .listOrString c
  | _ => exact .fail _

theorem mirrors_numbersOf (vs : List Value) :
    Mirrors f id (numbersOf vs) (numbersOf (vs.map (Value.renumber f))) := by
  induction vs with
  | nil => exact .pure []
  | cons v vs induction =>
      refine (mirrors_numberOf v).bind fun x => ?_
      exact induction.bind fun xs => .pure (x :: xs)

theorem mirrors_textsOf (vs : List Value) :
    Mirrors f id (textsOf vs) (textsOf (vs.map (Value.renumber f))) := by
  induction vs with
  | nil => exact .pure []
  | cons v vs induction =>
      refine (mirrors_textOf .string v).bind fun text => ?_
      exact induction.bind fun texts => .pure (text :: texts)

theorem mirrors_probe (path : String) : Mirrors f id (probe path) (probe path) := by
  refine (Mirrors.perform (.probe path)).bind fun v => ?_
  cases v with
  | bool found => exact .pure found
  | list items =>
      have text := Value.display_renumber f (.list items)
      rw [Value.renumber_list] at text ⊢
      simp only [text]
      exact .fail _
  | callable c =>
      have text := Value.display_renumber f (.callable c)
      rw [Value.renumber_callable] at text ⊢
      simp only [text]
      exact .fail _
  | _ => exact .fail _

theorem mirrors_readFile (path : String) :
    Mirrors f (Value.renumber f) (readFile path) (readFile path) := by
  refine (mirrors_probe path).bind fun found => ?_
  cases found with
  | true => exact .perform (.read path)
  | false => exact .fail _

theorem mirrors_writeFile (mode : WriteMode) (path content : Value) :
    Mirrors f (Value.renumber f) (writeFile mode path content)
      (writeFile mode (path.renumber f) (content.renumber f)) := by
  refine (mirrors_textOf .path path).bind fun path => ?_
  refine (mirrors_textOf .content content).bind fun content => ?_
  exact .perform (.write path content mode)

/-- A primitive does the same with values under other numbers. -/
theorem mirrors_run
    (injective : ∀ m n, f m = f n → m = n) {p : Primitive} (other : p ≠ evalValue)
    {args : List Value} (accepted : p.arity.accepts args.length = true) :
    Mirrors f (Value.renumber f) (p.run args) (p.run (args.map (Value.renumber f))) := by
  cases p with
  | slurp =>
      obtain ⟨path, rfl⟩ := Arity.eq_singleton accepted
      exact (mirrors_textOf .string path).bind fun path => mirrors_readFile path
  | put =>
      obtain ⟨path, content, rfl⟩ := Arity.eq_pair accepted
      exact mirrors_writeFile .truncate path content
  | append =>
      obtain ⟨path, content, rfl⟩ := Arity.eq_pair accepted
      exact mirrors_writeFile .append path content
  | fileExists =>
      obtain ⟨path, rfl⟩ := Arity.eq_singleton accepted
      refine (mirrors_textOf .string path).bind fun path => ?_
      exact (mirrors_probe path).bind fun found => .bool found
  | wslurp =>
      obtain ⟨url, rfl⟩ := Arity.eq_singleton accepted
      exact (mirrors_textOf .url url).bind fun url => .perform (.fetch url)
  | showValue =>
      obtain ⟨v, rfl⟩ := Arity.eq_singleton accepted
      have shown : Mirrors f id (Run.ofExcept (Datum.showValue v))
          (Run.ofExcept (Datum.showValue (v.renumber f))) := by
        apply Mirrors.ofExcept
        rw [Datum.showValue_renumber]
        cases Datum.showValue v <;> rfl
      exact shown.bind fun text => .string text
  | parseText =>
      obtain ⟨text, rfl⟩ := Arity.eq_singleton accepted
      refine (mirrors_textOf .string text).bind fun text => .ofExcept ?_
      exact Datum.read_renumber text
  | evalValue => exact absurd rfl other
  | add => exact (mirrors_numbersOf args).bind fun xs => .number (sum xs)
  | subtract => exact (mirrors_numbersOf args).bind fun xs => .number (difference xs)
  | multiply => exact (mirrors_numbersOf args).bind fun xs => .number (product xs)
  | divide => exact (mirrors_numbersOf args).bind fun xs => .number (quotient xs)
  | equal =>
      obtain ⟨v, w, rfl⟩ := Arity.eq_pair accepted
      have same := Value.same_renumber injective v w
      simp only [run, List.map_cons, List.map_nil, same]
      exact .bool (v.same w)
  | less =>
      obtain ⟨v, w, rfl⟩ := Arity.eq_pair accepted
      refine (mirrors_numberOf v).bind fun x => ?_
      exact (mirrors_numberOf w).bind fun y => .bool (x < y)
  | greater =>
      obtain ⟨v, w, rfl⟩ := Arity.eq_pair accepted
      refine (mirrors_numberOf v).bind fun x => ?_
      exact (mirrors_numberOf w).bind fun y => .bool (x > y)
  | list =>
      exact .list args
  | head =>
      obtain ⟨v, rfl⟩ := Arity.eq_singleton accepted
      refine (mirrors_itemsOf v).bind fun items => ?_
      cases items with
      | nil => exact .fail (.typeMismatch .nonEmptyList v)
      | cons first rest => exact .pure first
  | tail =>
      obtain ⟨v, rfl⟩ := Arity.eq_singleton accepted
      refine (mirrors_itemsOf v).bind fun items => ?_
      cases items with
      | nil => exact .fail (.typeMismatch .nonEmptyList v)
      | cons first rest =>
          exact .list rest
  | cons =>
      obtain ⟨v, rest, rfl⟩ := Arity.eq_pair accepted
      refine (mirrors_itemsOf rest).bind fun items => ?_
      exact .list (v :: items)
  | length =>
      obtain ⟨v, rfl⟩ := Arity.eq_singleton accepted
      exact (mirrors_lengthOf v).bind fun count => .number (Float.ofNat count)
  | isNull =>
      obtain ⟨v, rfl⟩ := Arity.eq_singleton accepted
      refine (mirrors_itemsOf v).bind fun items => ?_
      rw [List.isEmpty_map]
      exact .bool items.isEmpty
  | concat =>
      exact (mirrors_textsOf args).bind fun texts => .string (String.join texts)
  | lines =>
      obtain ⟨text, rfl⟩ := Arity.eq_singleton accepted
      refine (mirrors_textOf .string text).bind fun text => ?_
      have fixed : ((Text.lines text).map Value.string).map (Value.renumber f) =
          (Text.lines text).map Value.string := by
        apply Value.map_renumber_eq_self
        simp
      have lines := Mirrors.list (f := f) ((Text.lines text).map .string)
      rw [fixed] at lines
      exact lines

end Primitive

theorem SpecialForm.ofHead?_renumber (f : Nat → Nat) (head : Value) :
    ofHead? (head.renumber f) = ofHead? head := by
  cases head <;> simp [ofHead?]

theorem Value.isTruthy_renumber (f : Nat → Nat) (v : Value) :
    (v.renumber f).isTruthy = v.isTruthy := by
  cases v <;> simp [isTruthy]

theorem Value.eq_list_of_renumber
    {f : Nat → Nat} {v : Value} {others : List Value} (same : v.renumber f = list others) :
    ∃ items, v = list items ∧ items.map (renumber f) = others := by
  cases v with
  | list items =>
      rw [renumber_list, list.injEq] at same
      exact ⟨items, rfl, same⟩
  | _ => simp at same

namespace Eval

open Run (Mirrors)

variable {f : Nat → Nat}

section Evaluators

variable {evaluate other : Evaluator Nat}
  (each : ∀ e, Mirrors f (Value.renumber f) (evaluate e) (other (e.renumber f)))

theorem mirrors_checkArity (name : String) (expected : Arity) (given : Nat) :
    Mirrors f id (checkArity name expected given) (checkArity name expected given) := by
  unfold checkArity
  split
  · exact .pure ()
  · exact .fail (.arity name expected given)

theorem mirrors_operator (v : Value) :
    Mirrors f (Callable.renumber f) (operator v) (operator (v.renumber f)) := by
  cases v with
  | callable c =>
      rw [Value.renumber_callable]
      exact .pure c
  | list items =>
      rw [Value.renumber_list]
      have refused := Mirrors.fail (f := f) (g := Callable.renumber f)
        (.typeMismatch .operator (.list items))
      rwa [Fault.renumber, Value.renumber_list] at refused
  | _ => exact .fail _

theorem mirrors_evalQuote (es : List Value) :
    Mirrors f (Value.renumber f) (evalQuote es) (evalQuote (es.map (Value.renumber f))) := by
  match es with
  | [datum] => exact .pure datum
  | [] | _ :: _ :: _ => exact .fail (.badForm "quote" .quoteOperands)

theorem mirrors_letParts (es : List Value) :
    Mirrors f (fun parts => (parts.1.map (Value.renumber f), parts.2.map (Value.renumber f)))
      (letParts es) (letParts (es.map (Value.renumber f))) := by
  cases es with
  | nil => exact .fail (.badForm "let" .letOperands)
  | cons first rest =>
      rw [List.map_cons]
      cases first with
      | list bound =>
          rw [Value.renumber_list]
          cases rest with
          | nil => exact .fail (.badForm "let" .letOperands)
          | cons e body => exact .pure (bound, e :: body)
      | callable c =>
          rw [Value.renumber_callable]
          exact .fail (.badForm "let" .letOperands)
      | _ => exact .fail (.badForm "let" .letOperands)

theorem mirrors_parameterNames (form : String) (params : List Value) :
    Mirrors f id (parameterNames form params)
      (parameterNames form (params.map (Value.renumber f))) := by
  fun_induction parameterNames form params with
  | case1 => exact .pure []
  | case2 name params induction =>
      rw [List.map_cons, Value.renumber_symbol]
      exact induction.bind fun names => .pure (name :: names)
  | case3 first rest notSymbol =>
      rw [List.map_cons, parameterNames]
      · exact .fail (.badForm form (.parameterNotSymbol first))
      · cases first <;> simp_all

/-- The next lambda gets the number that goes with its own. -/
theorem mirrors_makeLambda
    (scope : Scope Value) (params : List String) (body : List Value) :
    Mirrors f (Value.renumber f) (makeLambda scope params body)
      (makeLambda (scope.map (Value.renumber f)) params (body.map (Value.renumber f))) := by
  intro serial goesOn
  refine .done ⟨?_, fun n later => goesOn n (Nat.le_of_succ_le later)⟩
  rw [renumberEnd, Value.renumber_callable, goesOn serial (Nat.le_refl _)]
  rfl

theorem mirrors_evalLambda (scope : Scope Value) (es : List Value) :
    Mirrors f (Value.renumber f) (evalLambda scope es)
      (evalLambda (scope.map (Value.renumber f)) (es.map (Value.renumber f))) := by
  match es with
  | [] | [_] => exact .fail (.badForm "lambda" .lambdaOperands)
  | params :: e :: body =>
      rw [List.map_cons, List.map_cons]
      cases params with
      | list params =>
          rw [Value.renumber_list]
          refine (mirrors_parameterNames "lambda" params).bind fun names => ?_
          exact mirrors_makeLambda scope names (e :: body)
      | callable c =>
          rw [Value.renumber_callable]
          exact .fail (.badForm "lambda" .parametersNotList)
      | _ => exact .fail (.badForm "lambda" .parametersNotList)

include each

theorem mirrors_sequenceFrom (last : Value) (body : List Value) :
    Mirrors f (Value.renumber f) (sequenceFrom evaluate last body)
      (sequenceFrom other (last.renumber f) (body.map (Value.renumber f))) := by
  induction body generalizing last with
  | nil => exact .pure last
  | cons e body induction => exact (each e).bind induction

theorem mirrors_sequence (body : List Value) :
    Mirrors f (Value.renumber f) (sequence evaluate body)
      (sequence other (body.map (Value.renumber f))) := by
  have unit : Value.unit.renumber f = .unit := Value.renumber_list f []
  have result := mirrors_sequenceFrom each .unit body
  rwa [unit] at result

theorem mirrors_operands (es : List Value) :
    Mirrors f (List.map (Value.renumber f)) (operands evaluate es)
      (operands other (es.map (Value.renumber f))) := by
  induction es with
  | nil => exact .pure []
  | cons e es induction =>
      refine (each e).bind fun v => ?_
      exact induction.bind fun vs => .pure (v :: vs)

theorem mirrors_evalIf (es : List Value) :
    Mirrors f (Value.renumber f) (evalIf evaluate es)
      (evalIf other (es.map (Value.renumber f))) := by
  match es with
  | [condition, consequence] =>
      refine (each condition).bind fun v => ?_
      rw [Value.isTruthy_renumber]
      split
      · exact each consequence
      · exact .list []
  | [condition, consequence, alternative] =>
      refine (each condition).bind fun v => ?_
      rw [Value.isTruthy_renumber]
      split
      · exact each consequence
      · exact each alternative
  | [] | [_] | _ :: _ :: _ :: _ :: _ => exact .fail (.badForm "if" .ifOperands)

theorem mirrors_bindings (bound : List Value) :
    Mirrors f (List.map fun binding => (binding.1, binding.2.renumber f))
      (bindings evaluate bound) (bindings other (bound.map (Value.renumber f))) := by
  fun_induction bindings evaluate bound with
  | case1 => exact .pure []
  | case2 e rest name induction =>
      simp only [List.map_cons, List.map_nil, Value.renumber_list, Value.renumber_symbol]
      refine (each e).bind fun v => ?_
      exact induction.bind fun frame => .pure ((name, v) :: frame)
  | case3 first e rest notSymbol =>
      simp only [List.map_cons, List.map_nil, Value.renumber_list]
      rw [bindings]
      · exact .fail (.badForm "let" .bindingName)
      · cases first <;> simp_all
  | case4 first rest notPair =>
      rw [List.map_cons, bindings]
      · exact .fail (.badForm "let" (.badBinding first))
      · intro name e pair
        obtain ⟨items, rfl, same⟩ := Value.eq_list_of_renumber pair
        have two : items.length = 2 := by simpa using congrArg List.length same
        obtain ⟨name, e, rfl⟩ := List.length_eq_two.mp two
        exact notPair name e rfl

end Evaluators

mutual

/-- Evaluation under other serial numbers mirrors evaluation. -/
theorem mirrors_eval
    (injective : ∀ m n, f m = f n → m = n) (ctx : Context) (e : Value) :
    Mirrors f (Value.renumber f) (eval ctx e) (eval (ctx.renumber f) (e.renumber f)) := by
  rw [eval_eq_activation, eval_eq_activation]
  cases e with
  | symbol name =>
      rw [Value.renumber_symbol, activation, activation, Context.find?_renumber]
      cases ctx.find? name with
      | some v => exact .pure v
      | none => exact .fail (.unbound name)
  | list items =>
      rw [Value.renumber_list]
      cases items with
      | nil => exact .list []
      | cons head rest =>
          rw [List.map_cons, activation, activation, Context.nested_renumber]
          cases entered : ctx.nested with
          | error refused => exact .fail refused
          | ok inner =>
              have each := mirrors_eval injective inner
              simp only [own, Except.map, Except.mapError, Run.ofExcept, pure_bind,
                SpecialForm.ofHead?_renumber]
              split
              · exact mirrors_evalQuote rest
              · exact mirrors_evalIf each rest
              · exact mirrors_evalLambda inner.scope rest
              · refine (mirrors_letParts rest).bind fun parts => ?_
                refine (mirrors_bindings each parts.1).bind fun frame => ?_
                exact mirrors_sequence (mirrors_eval injective (inner.extend frame)) parts.2
              · exact mirrors_sequence each rest
              · next name _ => exact .fail (.badForm name .notAtTopLevel)
              · refine (each head).bind fun callee => ?_
                refine (mirrors_operator callee).bind fun c => ?_
                refine (mirrors_operands each rest).bind fun args => ?_
                have applied := mirrors_apply injective inner c args
                rwa [apply_eq_application, apply_eq_application] at applied
  | callable c =>
      rw [Value.renumber_callable]
      exact .callable c
  | string text => exact .pure (Value.string text)
  | number x => exact .pure (Value.number x)
  | bool b => exact .pure (Value.bool b)
termination_by ctx.room
decreasing_by all_goals simpa using Context.room_lt_of_nested ‹_›

theorem mirrors_apply
    (injective : ∀ m n, f m = f n → m = n) (ctx : Context) (c : Callable Value)
    (args : List Value) :
    Mirrors f (Value.renumber f) (apply ctx c args)
      (apply (ctx.renumber f) (c.renumber f) (args.map (Value.renumber f))) := by
  cases c with
  | primitive p =>
      by_cases accepted : p.arity.accepts args.length = true
      · by_cases evaluates : p = .evalValue
        · subst evaluates
          obtain ⟨v, rfl⟩ := Arity.eq_singleton accepted
          rw [apply_eq_application, apply_eq_application]
          refine (mirrors_checkArity "eval" (.exactly 1) 1).bind fun _ => ?_
          rw [List.map_cons, List.map_nil, primitive, primitive, Context.nested_renumber]
          cases entered : ctx.nested with
          | error refused => exact .fail refused
          | ok inner => exact mirrors_eval injective inner v
        · have other_accepted :
              p.arity.accepts (args.map (Value.renumber f)).length = true := by
            rwa [List.length_map]
          rw [Callable.renumber, apply_primitive ctx evaluates accepted,
            apply_primitive (ctx.renumber f) evaluates other_accepted]
          exact Primitive.mirrors_run injective evaluates accepted
      · rw [apply_eq_application, apply_eq_application, Callable.renumber, application,
          application, List.length_map, checkArity, if_neg accepted]
        exact .fail (.arity p.name p.arity args.length)
  | lambda l =>
      rw [apply_eq_application, apply_eq_application, Callable.renumber, application,
        application, List.length_map]
      refine (mirrors_checkArity "lambda" _ _).bind fun _ => ?_
      rw [Lambda.renumber, Context.enter_renumber]
      cases entered : ctx.enter l.scope with
      | error refused => exact .fail refused
      | ok inner =>
          have each := mirrors_eval injective (inner.extend (l.params.zip args))
          have body := mirrors_sequence each l.body
          rw [Context.extend_renumber] at body
          rw [List.zip_map_right]
          exact body
termination_by ctx.room
decreasing_by all_goals simpa using Context.room_lt_of_enter ‹_›

end

end Eval

end EffectLisp
