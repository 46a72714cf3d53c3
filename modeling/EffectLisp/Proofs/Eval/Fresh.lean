import EffectLisp.Proofs.Eval.Arguments
import EffectLisp.Proofs.Eval.Renumbering

/-!
# Serial numbers are given out once

The next serial number is one that no lambda has.  Evaluation keeps it so: it never goes
back to a smaller number, and what it comes to holds only lambdas with numbers that have
been given out, as long as the same is true of the context, of the expression and of the
replies.
-/

namespace EffectLisp

namespace Value

variable {serial later : Nat}

theorem MadeBefore.mono {v : Value} (before : v.MadeBefore serial) (le : serial ≤ later) :
    v.MadeBefore later :=
  fun n inside => Nat.lt_of_lt_of_le (before n inside) le

@[simp] theorem madeBefore_string (text : String) : (string text).MadeBefore serial := nofun

@[simp] theorem madeBefore_number (x : Float) : (number x).MadeBefore serial := nofun

@[simp] theorem madeBefore_bool (b : Bool) : (bool b).MadeBefore serial := nofun

@[simp] theorem madeBefore_symbol (name : String) : (symbol name).MadeBefore serial := nofun

@[simp] theorem madeBefore_primitive (p : Primitive) :
    (callable (.primitive p)).MadeBefore serial := nofun

@[simp] theorem madeBefore_list_iff {items : List Value} :
    (list items).MadeBefore serial ↔ ∀ item ∈ items, item.MadeBefore serial := by
  simp only [MadeBefore, serials_list, List.forall_mem_flatMap]

theorem madeBefore_lambda_iff {l : Lambda Value} :
    (callable (.lambda l)).MadeBefore serial ↔
      l.serial < serial ∧ (∀ e ∈ l.body, e.MadeBefore serial) ∧
        ∀ frame ∈ l.scope.frames, ∀ binding ∈ frame, binding.2.MadeBefore serial := by
  simp only [MadeBefore, serials_lambda, List.forall_mem_cons, List.forall_mem_append,
    List.forall_mem_flatMap]

end Value

theorem Reply.MadeBefore.mono
    {serial later : Nat} {reply : Reply} (before : reply.MadeBefore serial)
    (le : serial ≤ later) : reply.MadeBefore later := by
  cases reply with
  | value v => exact Value.MadeBefore.mono before le
  | fault f =>
      cases f with
      | typeMismatch expected got => exact Value.MadeBefore.mono before le
      | badForm form cause =>
          cases cause with
          | parameterNotSymbol parameter => exact Value.MadeBefore.mono before le
          | badBinding binding => exact Value.MadeBefore.mono before le
          | _ => trivial
      | _ => trivial
  | panic payload => trivial

namespace Context.MadeBefore

variable {serial later : Nat} {ctx inner : Context}

theorem mono (before : ctx.MadeBefore serial) (le : serial ≤ later) :
    ctx.MadeBefore later where
  globals entry member := (before.globals entry member).mono le
  scope frame around binding member := (before.scope frame around binding member).mono le

theorem find? (before : ctx.MadeBefore serial) {name : String} {v : Value}
    (found : ctx.find? name = some v) : v.MadeBefore serial := by
  rw [Context.find?] at found
  cases inner : ctx.scope.find? name with
  | some w =>
      rw [inner] at found
      cases found
      obtain ⟨frame, around, bound⟩ := List.exists_of_findSome?_eq_some inner
      obtain ⟨binding, member, rfl⟩ := Option.map_eq_some_iff.mp bound
      exact before.scope frame around binding
        (List.mem_reverse.mp (List.mem_of_find?_eq_some member))
  | none =>
      rw [inner] at found
      obtain ⟨entry, member, rfl⟩ := Option.map_eq_some_iff.mp found
      exact before.globals entry (List.mem_of_find?_eq_some member)

theorem enter (before : ctx.MadeBefore serial) {scope : Scope Value}
    (scope_before : ∀ frame ∈ scope.frames, ∀ binding ∈ frame, binding.2.MadeBefore serial)
    (entered : ctx.enter scope = .ok inner) : inner.MadeBefore serial := by
  obtain ⟨-, rfl⟩ := Context.enter_eq_ok_iff.mp entered
  exact ⟨before.globals, scope_before⟩

theorem extend (before : ctx.MadeBefore serial) {frame : List (String × Value)}
    (frame_before : ∀ binding ∈ frame, binding.2.MadeBefore serial) :
    (ctx.extend frame).MadeBefore serial :=
  ⟨before.globals, List.forall_mem_cons.mpr ⟨frame_before, before.scope⟩⟩

end Context.MadeBefore

namespace Run

variable {α β : Type}

/-- The next number does not go back, and a result is good at the time it is there, if the
replies hold only lambdas that have been made before. -/
def Fresh (good : Nat → α → Prop) (serial : Nat) (run : Evaluation α) : Prop :=
  ∀ exchanges result final, Trace run serial exchanges result final →
    (∀ exchange ∈ exchanges, exchange.reply.MadeBefore serial) →
    serial ≤ final ∧ ∀ a, result = .ok a → good final a

namespace Fresh

variable {good : Nat → α → Prop} {good' : Nat → β → Prop} {serial : Nat}

theorem pure {a : α} (holds : good serial a) : Fresh good serial (Pure.pure a) := by
  intro exchanges result final trace _
  obtain ⟨-, rfl, rfl⟩ := trace_pure_iff.mp trace
  refine ⟨Nat.le_refl _, ?_⟩
  rintro _ ⟨⟩
  exact holds

theorem fail (f : Fault) : Fresh good serial (Run.fail f) := by
  intro exchanges result final trace _
  obtain ⟨-, rfl, rfl⟩ := trace_fail_iff.mp trace
  exact ⟨Nat.le_refl _, nofun⟩

theorem bind
    {first : Evaluation α} {next : α → Evaluation β} (fresh : Fresh good serial first)
    (rest : ∀ a later, serial ≤ later → good later a → Fresh good' later (next a)) :
    Fresh good' serial (first >>= next) := by
  intro exchanges result final trace replies
  rcases trace_bind_iff.mp trace with
    ⟨a, middle, front, back, rfl, front_trace, back_trace⟩ | ⟨stop, rfl, front_trace⟩
  · obtain ⟨front_replies, back_replies⟩ := List.forall_mem_append.mp replies
    obtain ⟨le, holds⟩ := fresh front (.ok a) middle front_trace front_replies
    obtain ⟨le', holds'⟩ := rest a middle le (holds a rfl) back result final back_trace
      fun exchange member => (back_replies exchange member).mono le
    exact ⟨Nat.le_trans le le', holds'⟩
  · obtain ⟨le, -⟩ := fresh exchanges (.error stop) final front_trace replies
    exact ⟨le, nofun⟩

theorem perform (effect : Effect) :
    Fresh (fun n v => v.MadeBefore n) serial (Run.perform effect) := by
  intro exchanges result final trace replies
  obtain ⟨reply, rfl, rfl, rfl⟩ := trace_perform_iff.mp trace
  refine ⟨Nat.le_refl _, ?_⟩
  intro v answered
  have before := replies _ (List.mem_singleton_self _)
  cases reply <;> cases answered
  exact before

/-- A result without a request is good if it is. -/
theorem ofExcept {given : Except Fault α} (holds : ∀ a, given = .ok a → good serial a) :
    Fresh good serial (Run.ofExcept given) := by
  cases given with
  | ok a => exact pure (holds a rfl)
  | error f => exact fail f

theorem of_quiet {run : Evaluation α} (quiet : Quiet run) :
    Fresh (fun _ _ => True) serial run := by
  obtain ⟨given, rfl⟩ := quiet
  exact ofExcept fun _ _ => trivial

end Fresh

end Run

theorem Datum.Writable.madeBefore
    {depth : Nat} {v : Value} (writable : Writable depth v) (serial : Nat) :
    v.MadeBefore serial := by
  induction writable with
  | list _ _ each => exact Value.madeBefore_list_iff.mpr each
  | _ => simp

/-- What is read holds no lambda at all. -/
theorem Datum.madeBefore_of_read
    {text : String} {v : Value} (result : read text = .ok v) (serial : Nat) :
    v.MadeBefore serial := by
  have writable : Writable 0 v := exists_read_iff.mp ⟨text, result⟩
  exact writable.madeBefore serial

namespace Primitive

open Run (Fresh)

variable {serial : Nat}

/-- What is made of parts that hold no lambda holds none. -/
theorem fresh_plain
    {α : Type} {run : Evaluation α} (quiet : Run.Quiet run) {make : α → Value}
    (plain : ∀ a n, (make a).MadeBefore n) :
    Fresh (fun n v => v.MadeBefore n) serial (run >>= fun a => pure (make a)) :=
  (Fresh.of_quiet quiet).bind fun a later _ _ => .pure (plain a later)

theorem fresh_itemsOf {v : Value} (before : v.MadeBefore serial) :
    Fresh (fun n items => ∀ item ∈ items, item.MadeBefore n) serial (itemsOf v) := by
  cases v with
  | list items => exact .pure (Value.madeBefore_list_iff.mp before)
  | _ => exact .fail _

theorem fresh_probe (path : String) : Fresh (fun _ _ => True) serial (probe path) := by
  intro exchanges result final trace _
  obtain ⟨reply, -, rfl, -⟩ := trace_probe_iff.mp trace
  exact ⟨Nat.le_refl _, fun _ _ => trivial⟩

theorem fresh_readFile (path : String) :
    Fresh (fun n v => v.MadeBefore n) serial (readFile path) := by
  refine (fresh_probe path).bind fun found later _ _ => ?_
  cases found with
  | true => exact .perform (.read path)
  | false => exact .fail _

theorem fresh_writeFile (mode : WriteMode) (path content : Value) :
    Fresh (fun n v => v.MadeBefore n) serial (writeFile mode path content) := by
  refine (Fresh.of_quiet (quiet_textOf .path path)).bind fun path _ _ _ => ?_
  refine (Fresh.of_quiet (quiet_textOf .content content)).bind fun content _ _ _ => ?_
  exact .perform (.write path content mode)

/-- A primitive gives values that are there already, or new ones without lambdas. -/
theorem fresh_run
    {p : Primitive} (other : p ≠ evalValue) {args : List Value}
    (accepted : p.arity.accepts args.length = true)
    (before : ∀ v ∈ args, v.MadeBefore serial) :
    Fresh (fun n v => v.MadeBefore n) serial (p.run args) := by
  cases p with
  | slurp =>
      obtain ⟨path, rfl⟩ := Arity.eq_singleton accepted
      exact (Fresh.of_quiet (quiet_textOf .string path)).bind fun path _ _ _ =>
        fresh_readFile path
  | put =>
      obtain ⟨path, content, rfl⟩ := Arity.eq_pair accepted
      exact fresh_writeFile .truncate path content
  | append =>
      obtain ⟨path, content, rfl⟩ := Arity.eq_pair accepted
      exact fresh_writeFile .append path content
  | fileExists =>
      obtain ⟨path, rfl⟩ := Arity.eq_singleton accepted
      refine (Fresh.of_quiet (quiet_textOf .string path)).bind fun path _ _ _ => ?_
      exact (fresh_probe path).bind fun found _ _ _ => .pure (Value.madeBefore_bool found)
  | wslurp =>
      obtain ⟨url, rfl⟩ := Arity.eq_singleton accepted
      exact (Fresh.of_quiet (quiet_textOf .url url)).bind fun url _ _ _ =>
        .perform (.fetch url)
  | showValue =>
      obtain ⟨v, rfl⟩ := Arity.eq_singleton accepted
      exact fresh_plain ⟨_, rfl⟩ fun _ _ => Value.madeBefore_string _
  | parseText =>
      obtain ⟨text, rfl⟩ := Arity.eq_singleton accepted
      refine (Fresh.of_quiet (quiet_textOf .string text)).bind fun text later _ _ => ?_
      exact .ofExcept fun v result => Datum.madeBefore_of_read result later
  | evalValue => exact absurd rfl other
  | add | multiply | subtract | divide =>
      exact fresh_plain (quiet_numbersOf args) fun _ _ => Value.madeBefore_number _
  | equal =>
      obtain ⟨v, w, rfl⟩ := Arity.eq_pair accepted
      exact .pure (Value.madeBefore_bool _)
  | less | greater =>
      obtain ⟨v, w, rfl⟩ := Arity.eq_pair accepted
      refine (Fresh.of_quiet (quiet_numberOf v)).bind fun x _ _ _ => ?_
      exact fresh_plain (quiet_numberOf w) fun _ _ => Value.madeBefore_bool _
  | list => exact .pure (Value.madeBefore_list_iff.mpr before)
  | head | tail =>
      obtain ⟨v, rfl⟩ := Arity.eq_singleton accepted
      refine (fresh_itemsOf (before v (by simp))).bind fun items later _ inside => ?_
      cases items with
      | nil => exact .fail _
      | cons first rest =>
          obtain ⟨first_before, rest_before⟩ := List.forall_mem_cons.mp inside
          first
          | exact .pure first_before
          | exact .pure (Value.madeBefore_list_iff.mpr rest_before)
  | cons =>
      obtain ⟨v, rest, rfl⟩ := Arity.eq_pair accepted
      refine (fresh_itemsOf (before rest (by simp))).bind fun items later le inside => ?_
      have first := (before v (by simp)).mono le
      exact .pure (Value.madeBefore_list_iff.mpr (List.forall_mem_cons.mpr ⟨first, inside⟩))
  | length =>
      obtain ⟨v, rfl⟩ := Arity.eq_singleton accepted
      exact fresh_plain (quiet_lengthOf v) fun _ _ => Value.madeBefore_number _
  | isNull =>
      obtain ⟨v, rfl⟩ := Arity.eq_singleton accepted
      exact fresh_plain (quiet_itemsOf v) fun _ _ => Value.madeBefore_bool _
  | concat => exact fresh_plain (quiet_textsOf args) fun _ _ => Value.madeBefore_string _
  | lines =>
      obtain ⟨text, rfl⟩ := Arity.eq_singleton accepted
      exact fresh_plain (quiet_textOf .string text) fun text n => by simp

end Primitive

namespace Eval

open Run (Fresh)

variable {serial : Nat}

theorem fresh_checkArity (name : String) (expected : Arity) (given : Nat) :
    Fresh (fun _ _ => True) serial (checkArity name expected given) := by
  unfold checkArity
  split
  · exact .pure trivial
  · exact .fail _

theorem fresh_operator {v : Value} (before : v.MadeBefore serial) :
    Fresh (fun n c => (Value.callable c).MadeBefore n) serial (operator v) := by
  cases v with
  | callable c => exact .pure before
  | _ => exact .fail _

theorem fresh_evalQuote {es : List Value} (before : ∀ e ∈ es, e.MadeBefore serial) :
    Fresh (fun n v => v.MadeBefore n) serial (evalQuote es) := by
  unfold evalQuote
  split
  · exact .pure (before _ (by simp))
  · exact .fail _

theorem fresh_letParts {es : List Value} (before : ∀ e ∈ es, e.MadeBefore serial) :
    Fresh
      (fun n parts => (∀ e ∈ parts.1, e.MadeBefore n) ∧ ∀ e ∈ parts.2, e.MadeBefore n)
      serial (letParts es) := by
  unfold letParts
  split
  · obtain ⟨bound, body⟩ := List.forall_mem_cons.mp before
    exact .pure ⟨Value.madeBefore_list_iff.mp bound, body⟩
  · exact .fail _

theorem fresh_parameterNames (form : String) (params : List Value) :
    Fresh (fun _ _ => True) serial (parameterNames form params) := by
  fun_induction parameterNames form params with
  | case1 => exact .pure trivial
  | case2 name params induction => exact induction.bind fun names _ _ _ => .pure trivial
  | case3 => exact .fail _

/-- A new lambda has the number that was the next one. -/
theorem fresh_makeLambda
    {scope : Scope Value} {body : List Value} (params : List String)
    (scope_before : ∀ frame ∈ scope.frames, ∀ binding ∈ frame, binding.2.MadeBefore serial)
    (body_before : ∀ e ∈ body, e.MadeBefore serial) :
    Fresh (fun n v => v.MadeBefore n) serial (makeLambda scope params body) := by
  intro exchanges result final trace _
  have made : makeLambda scope params body serial =
      .done (.ok (.callable (.lambda ⟨serial, params, body, scope⟩)), serial + 1) := rfl
  obtain ⟨-, rfl, rfl⟩ := (Run.trace_iff_of_done made).mp trace
  refine ⟨Nat.le_succ serial, ?_⟩
  rintro _ ⟨⟩
  refine Value.madeBefore_lambda_iff.mpr ⟨Nat.lt_succ_self serial, ?_, ?_⟩
  · exact fun e member => (body_before e member).mono (Nat.le_succ serial)
  · exact fun frame around binding member =>
      (scope_before frame around binding member).mono (Nat.le_succ serial)

theorem fresh_evalLambda
    {scope : Scope Value} {es : List Value}
    (scope_before : ∀ frame ∈ scope.frames, ∀ binding ∈ frame, binding.2.MadeBefore serial)
    (before : ∀ e ∈ es, e.MadeBefore serial) :
    Fresh (fun n v => v.MadeBefore n) serial (evalLambda scope es) := by
  unfold evalLambda
  split
  · obtain ⟨-, body⟩ := List.forall_mem_cons.mp before
    split
    · refine (fresh_parameterNames "lambda" _).bind fun names later le _ => ?_
      apply fresh_makeLambda
      · exact fun frame around binding member =>
          (scope_before frame around binding member).mono le
      · exact fun e member => (body e member).mono le
    · exact .fail _
  · exact .fail _

section Evaluators

variable {evaluate : Evaluator Nat}
  (each : ∀ later, serial ≤ later → ∀ e : Value, e.MadeBefore later →
    Fresh (fun n v => v.MadeBefore n) later (evaluate e))

include each

theorem fresh_sequenceFrom
    {last : Value} {body : List Value} (last_before : last.MadeBefore serial)
    (before : ∀ e ∈ body, e.MadeBefore serial) :
    Fresh (fun n v => v.MadeBefore n) serial (sequenceFrom evaluate last body) := by
  induction body generalizing last serial with
  | nil => exact .pure last_before
  | cons e body induction =>
      obtain ⟨first, rest⟩ := List.forall_mem_cons.mp before
      refine (each serial (Nat.le_refl _) e first).bind fun v later le made => ?_
      apply induction
      · exact fun n after => each n (Nat.le_trans le after)
      · exact made
      · exact fun e member => (rest e member).mono le

theorem fresh_sequence {body : List Value} (before : ∀ e ∈ body, e.MadeBefore serial) :
    Fresh (fun n v => v.MadeBefore n) serial (sequence evaluate body) :=
  fresh_sequenceFrom each (Value.madeBefore_list_iff.mpr nofun) before

theorem fresh_operands {es : List Value} (before : ∀ e ∈ es, e.MadeBefore serial) :
    Fresh (fun n vs => ∀ v ∈ vs, v.MadeBefore n) serial (operands evaluate es) := by
  induction es generalizing serial with
  | nil => exact .pure nofun
  | cons e es induction =>
      obtain ⟨first, rest⟩ := List.forall_mem_cons.mp before
      refine (each serial (Nat.le_refl _) e first).bind fun v later le made => ?_
      refine (induction (fun n after => each n (Nat.le_trans le after))
        fun e member => (rest e member).mono le).bind fun vs last le' all => ?_
      exact .pure (List.forall_mem_cons.mpr ⟨made.mono le', all⟩)

theorem fresh_evalIf {es : List Value} (before : ∀ e ∈ es, e.MadeBefore serial) :
    Fresh (fun n v => v.MadeBefore n) serial (evalIf evaluate es) := by
  unfold evalIf
  split
  · refine (each serial (Nat.le_refl _) _ (before _ (by simp))).bind fun v later le _ => ?_
    split
    · exact each later le _ ((before _ (by simp)).mono le)
    · exact .pure (Value.madeBefore_list_iff.mpr nofun)
  · refine (each serial (Nat.le_refl _) _ (before _ (by simp))).bind fun v later le _ => ?_
    split
    · exact each later le _ ((before _ (by simp)).mono le)
    · exact each later le _ ((before _ (by simp)).mono le)
  · exact .fail _

theorem fresh_bindings {bound : List Value} (before : ∀ b ∈ bound, b.MadeBefore serial) :
    Fresh (fun n frame => ∀ binding ∈ frame, binding.2.MadeBefore n) serial
      (bindings evaluate bound) := by
  fun_induction bindings evaluate bound generalizing serial with
  | case1 => exact .pure (List.forall_mem_nil _)
  | case2 e rest name induction =>
      obtain ⟨pair, others⟩ := List.forall_mem_cons.mp before
      have inside := Value.madeBefore_list_iff.mp pair
      refine (each serial (Nat.le_refl _) e (inside e (by simp))).bind fun v later le made => ?_
      refine (induction (fun n after => each n (Nat.le_trans le after))
        fun b member => (others b member).mono le).bind fun frame last le' all => ?_
      exact .pure (List.forall_mem_cons.mpr ⟨made.mono le', all⟩)
  | case3 => exact .fail _
  | case4 => exact .fail _

end Evaluators

mutual

/-- Evaluation gives every number once. -/
theorem fresh_eval
    {ctx : Context} {e : Value} {serial : Nat} (around : ctx.MadeBefore serial)
    (before : e.MadeBefore serial) :
    Fresh (fun n v => v.MadeBefore n) serial (eval ctx e) := by
  rw [eval_eq_activation]
  unfold activation
  split
  · next name =>
      split
      · next v found => exact .pure (around.find? found)
      · exact .fail _
  · next head rest =>
      obtain ⟨first, others⟩ :=
        List.forall_mem_cons.mp (Value.madeBefore_list_iff.mp before)
      cases entered : ctx.nested with
      | error refused => exact .fail refused
      | ok inner =>
          have inside : inner.MadeBefore serial := around.enter around.scope entered
          have each (later : Nat) (le : serial ≤ later) (e : Value)
              (e_before : e.MadeBefore later) :
              Fresh (fun n v => v.MadeBefore n) later (eval inner e) :=
            fresh_eval (inside.mono le) e_before
          simp only [own, Run.ofExcept, pure_bind]
          split
          · exact fresh_evalQuote others
          · exact fresh_evalIf each others
          · exact fresh_evalLambda inside.scope others
          · refine (fresh_letParts others).bind fun parts later le made => ?_
            have each_later (n : Nat) (after : later ≤ n) := each n (Nat.le_trans le after)
            refine (fresh_bindings each_later made.1).bind fun frame last le' bound => ?_
            have extended : (inner.extend frame).MadeBefore last :=
              (inside.mono (Nat.le_trans le le')).extend bound
            refine fresh_sequence (fun n after e e_before => ?_)
              fun e member => (made.2 e member).mono le'
            exact fresh_eval (extended.mono after) e_before
          · exact fresh_sequence each others
          · exact .fail _
          · refine (each serial (Nat.le_refl _) head first).bind fun callee later le made => ?_
            refine (fresh_operator made).bind fun c later' le' callable => ?_
            have le_both := Nat.le_trans le le'
            have each_later (n : Nat) (after : later' ≤ n) := each n (Nat.le_trans le_both after)
            refine (fresh_operands each_later
              fun e member => (others e member).mono le_both).bind fun args last le'' all => ?_
            have applied := fresh_apply (inside.mono (Nat.le_trans le_both le''))
              (callable.mono le'') all
            rwa [apply_eq_application] at applied
  · exact .pure before
termination_by ctx.room
decreasing_by all_goals simpa using Context.room_lt_of_nested ‹_›

theorem fresh_apply
    {ctx : Context} {c : Callable Value} {args : List Value} {serial : Nat}
    (around : ctx.MadeBefore serial) (callable : (Value.callable c).MadeBefore serial)
    (before : ∀ v ∈ args, v.MadeBefore serial) :
    Fresh (fun n v => v.MadeBefore n) serial (apply ctx c args) := by
  cases c with
  | primitive p =>
      by_cases accepted : p.arity.accepts args.length = true
      · by_cases evaluates : p = .evalValue
        · subst evaluates
          obtain ⟨v, rfl⟩ := Arity.eq_singleton accepted
          rw [apply_eq_application]
          refine (fresh_checkArity "eval" (.exactly 1) 1).bind fun _ later le _ => ?_
          rw [primitive]
          cases entered : ctx.nested with
          | error refused => exact .fail refused
          | ok inner =>
              have inside : inner.MadeBefore serial := around.enter around.scope entered
              exact fresh_eval (inside.mono le) ((before v (by simp)).mono le)
        · rw [apply_primitive ctx evaluates accepted]
          exact Primitive.fresh_run evaluates accepted before
      · rw [apply_eq_application, application, checkArity, if_neg accepted]
        exact .fail _
  | lambda l =>
      rw [apply_eq_application, application]
      refine (fresh_checkArity "lambda" _ _).bind fun _ later le _ => ?_
      obtain ⟨-, body, scope⟩ := Value.madeBefore_lambda_iff.mp callable
      cases entered : ctx.enter l.scope with
      | error refused => exact .fail refused
      | ok inner =>
          have inside : inner.MadeBefore serial := around.enter scope entered
          have frame : ∀ binding ∈ l.params.zip args, binding.2.MadeBefore serial :=
            fun binding member => before _ (List.of_mem_zip member).2
          have extended := (inside.extend frame).mono le
          refine fresh_sequence (fun n after e e_before => ?_)
            fun e member => (body e member).mono le
          exact fresh_eval (extended.mono after) e_before
termination_by ctx.room
decreasing_by all_goals simpa using Context.room_lt_of_enter ‹_›

end

end Eval

end EffectLisp
