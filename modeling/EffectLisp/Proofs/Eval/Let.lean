import EffectLisp.Proofs.Eval.Renumbering

/-!
# Bindings as applied lambdas

A `let` form and a lambda that is applied at once both evaluate the expressions of the
names in turn, outside of the new names, and then the body with the names bound.  The
applied lambda needs one level more, and it gives a serial number to a lambda that
nobody sees.  So unless it goes beyond the limit the two come to the same, but for the
numbers of the lambdas that are made on the way.
-/

namespace EffectLisp

theorem Context.find?_extend_last
    {ctx : Context} {front back : List (String × Value)} {name : String} {v : Value}
    (last : ∀ binding ∈ back, binding.1 ≠ name) :
    (ctx.extend (front ++ (name, v) :: back)).find? name = some v := by
  have later : back.reverse.find? (·.1 = name) = none := by
    simpa using last
  have found : Scope.frameFind? (front ++ (name, v) :: back) name = some v := by
    simp [Scope.frameFind?, later]
  simp [find?, extend, Scope.find?, Scope.push, found]

namespace Eval

open Context (Roomier)

section Forms

variable (bound : List (String × Value)) (body : List Value)

/-- `(let ((name expr)...) body...)`. -/
def letForm : Value :=
  .list (.symbol "let" :: .list (bound.map fun b => .list [.symbol b.1, b.2]) :: body)

/-- `((lambda (name...) body...) expr...)`. -/
def appliedLambda : Value :=
  .list (.list (.symbol "lambda" :: .list (bound.map (.symbol ·.1)) :: body) ::
    bound.map (·.2))

/-- The expressions in turn, and then the body with the names bound to their values. -/
def bindingThen (ctx : Context) : Evaluation Value := do
  let vs ← operands (eval ctx) (bound.map (·.2))
  sequence (eval (ctx.extend ((bound.map (·.1)).zip vs))) body

end Forms

section Parts

variable {σ τ : Type} {excused : Stop → Prop} {states : σ → τ → Prop}

theorem bindings_map_pair (evaluate : Evaluator σ) (bound : List (String × Value)) :
    bindings evaluate (bound.map fun b => .list [.symbol b.1, b.2]) =
      ((bound.map (·.1)).zip ·) <$> operands evaluate (bound.map (·.2)) := by
  induction bound with
  | nil => simp [bindings, operands]
  | cons b bound induction => simp [bindings, operands, induction]

theorem parameterNames_map_symbol (form : String) (bound : List (String × Value)) :
    parameterNames form (bound.map (.symbol ·.1)) = pure (bound.map (·.1)) := by
  induction bound with
  | nil => rfl
  | cons b bound induction => simp [parameterNames, induction]

/-- Operands have as many values as there are expressions. -/
theorem follows_operands_length
    {evaluate : Evaluator σ} {other : Evaluator τ}
    (each : ∀ e, Run.Follows excused states Eq (evaluate e) (other e)) (es : List Value) :
    Run.Follows excused states (fun vs ws => ws = vs ∧ vs.length = es.length)
      (operands evaluate es) (operands other es) := by
  induction es with
  | nil => exact .pure ⟨rfl, rfl⟩
  | cons e es induction =>
      apply (each e).bind_eq
      intro v
      apply induction.bind
      rintro vs _ ⟨rfl, length⟩
      exact .pure ⟨rfl, congrArg (· + 1) length⟩

theorem follows_makeLambda
    (scope : Scope Value) (params : List String) (body : List Value) :
    Run.Follows excused Eq
      (fun v _ => ∃ serial, v = .callable (.lambda ⟨serial, params, body, scope⟩))
      (makeLambda scope params body) (makeLambda scope params body) := by
  rintro serial _ rfl
  exact .done ⟨.ok ⟨serial, rfl⟩, rfl⟩

theorem apply_lambda
    {ctx inner : Context} {scope : Scope Value} (entered : ctx.enter scope = .ok inner)
    (serial : Nat) {params : List String} (body : List Value) {args : List Value}
    (length : args.length = params.length) :
    apply ctx (.lambda ⟨serial, params, body, scope⟩) args =
      sequence (eval (inner.extend (params.zip args))) body := by
  have accepted : (Arity.exactly params.length).accepts args.length = true := by
    rw [Arity.accepts, decide_eq_true_iff, length]
  rw [apply_eq_application, application, entered, checkArity, if_pos accepted]
  rfl

end Parts

section Forms

variable {ctx inner : Context} (bound : List (String × Value)) (e : Value)
  (body : List Value)

theorem eval_letForm (entered : ctx.nested = .ok inner) :
    eval ctx (letForm bound (e :: body)) = bindingThen bound (e :: body) inner := by
  have special : SpecialForm.ofHead? (.symbol "let") = some .letIn := rfl
  rw [eval_eq_activation, letForm, activation, entered]
  simp only [special, own, Run.ofExcept, letParts, id, pure_bind, bindings_map_pair,
    bind_map_left, bindingThen]

theorem eval_lambda (entered : ctx.nested = .ok inner) :
    eval ctx (.list (.symbol "lambda" :: .list (bound.map (.symbol ·.1)) :: e :: body)) =
      makeLambda inner.scope (bound.map (·.1)) (e :: body) := by
  have special : SpecialForm.ofHead? (.symbol "lambda") = some .lambda := rfl
  rw [eval_eq_activation, activation, entered]
  simp only [special, own, Run.ofExcept, evalLambda, id, pure_bind,
    parameterNames_map_symbol]

/-- Each expression is evaluated outside of all the bindings. -/
theorem follows_letForm :
    Run.Follows Stop.IsLimit Eq Eq (eval ctx (letForm bound (e :: body)))
      (bindingThen bound (e :: body) ctx) := by
  apply follows_of_nested
  intro inner entered roomier
  have form := eval_letForm bound e body entered
  rw [letForm] at form
  rw [form]
  apply (follows_operands (follows_eval roomier) _).bind_eq
  intro vs
  exact follows_sequence (follows_eval (roomier.extend _)) _

/-- An applied lambda makes a lambda, and then it is a `let` form. -/
theorem follows_appliedLambda :
    Run.Follows Stop.IsLimit Eq Eq (eval ctx (appliedLambda bound (e :: body)))
      (makeLambda ctx.scope (bound.map (·.1)) (e :: body) >>= fun _ =>
        eval ctx (letForm bound (e :: body))) := by
  apply follows_of_nested
  intro inner entered roomier
  rw [eval_letForm bound e body entered]
  have special (items : List Value) : SpecialForm.ofHead? (.list items) = none := rfl
  rw [eval_eq_activation, activation, entered]
  simp only [special, own, Run.ofExcept, pure_bind]
  rcases inner.nested_cases with refused | ⟨deeper, again, closer⟩
  · rw [eval_eq_activation, activation, refused]
    exact .fail_of_excused ⟨_, rfl⟩ _
  · rw [eval_lambda bound e body again, ← closer.scope, roomier.scope]
    apply (follows_makeLambda _ _ _).bind
    rintro _ _ ⟨serial, rfl⟩
    simp only [operator, id, pure_bind]
    apply (follows_operands_length (fun e => .refl _ (eval inner e)) _).bind
    rintro _ vs ⟨rfl, length⟩
    have taken : vs.length = (bound.map (·.1)).length := by simpa using length
    have applied := apply_lambda again serial (e :: body) taken
    rw [apply_eq_application, own] at applied
    rw [applied]
    exact follows_sequence (follows_eval (closer.extend _)) _

end Forms

section Alike

variable {ctx : Context} {bound : List (String × Value)} {e : Value} {body : List Value}
  {serial : Nat}

theorem renumber_skip_letForm
    (before_bound : ∀ b ∈ bound, b.2.MadeBefore serial)
    (before_body : ∀ part ∈ body, part.MadeBefore serial) :
    (letForm bound body).renumber (skip serial) = letForm bound body := by
  have pairs : (bound.map fun b => Value.list [.symbol b.1, b.2]).map
      (Value.renumber (skip serial)) = bound.map fun b => .list [.symbol b.1, b.2] := by
    apply Value.map_renumber_eq_self
    intro pair member
    obtain ⟨b, inside, rfl⟩ := List.mem_map.mp member
    simp [(before_bound b inside).renumber_skip]
  have parts : body.map (Value.renumber (skip serial)) = body :=
    Value.map_renumber_eq_self fun part member => (before_body part member).renumber_skip
  rw [letForm, Value.renumber_list, List.map_cons, List.map_cons, Value.renumber_symbol,
    Value.renumber_list, pairs, parts]

/-- What the two forms come to, but for the number that the applied lambda takes. -/
theorem play_letForm_alike
    {σ : Type} (bridge : Bridge σ) (world : σ) (before : ctx.MadeBefore serial)
    (before_bound : ∀ b ∈ bound, b.2.MadeBefore serial)
    (before_body : ∀ part ∈ e :: body, part.MadeBefore serial)
    (before_replies : ∀ exchange ∈
      (bridge.play world (eval ctx (appliedLambda bound (e :: body)) serial)).exchanges,
      exchange.reply.MadeBefore serial)
    (finished : ∀ limit,
      (bridge.play world (eval ctx (appliedLambda bound (e :: body)) serial)).result.1 ≠
        .error (.fault (.recursionLimit limit))) :
    let applied := bridge.play world (eval ctx (appliedLambda bound (e :: body)) serial)
    let played := bridge.play world (eval ctx (letForm bound (e :: body)) serial)
    played.exchanges = applied.exchanges ∧ played.world = applied.world ∧
      applied.result.1 =
        renumberEnd (skip serial) (Value.renumber (skip serial)) played.result.1 := by
  intro applied played
  have made : bridge.play world (eval ctx (letForm bound (e :: body)) (serial + 1)) =
      applied := by
    apply (follows_appliedLambda bound e body).play_eq
    rintro stop stopped ⟨limit, rfl⟩
    exact finished limit stopped
  have mirrors := mirrors_eval skip_injective ctx (letForm bound (e :: body)) serial
    (goesOn_skip serial)
  have next : skip serial serial = serial + 1 := if_neg (Nat.lt_irrefl serial)
  rw [before.renumber_skip, renumber_skip_letForm before_bound before_body, next] at mirrors
  have alike := mirrors.play bridge world (by
    rw [made]
    exact fun exchange member => (before_replies exchange member).renumber_skip)
  rw [made] at alike
  obtain ⟨exchanges, ⟨result, -⟩, last⟩ := alike
  exact ⟨exchanges, last, congrArg Prod.fst result⟩

end Alike

/-- Unless an applied lambda goes beyond the limit, the `let` form has the same
exchanges, leaves the same world and comes to the same value or fault, if `serial` is a
number that no lambda has yet.  Lambdas that are made on the way have the number in
between left out and are the same in their parameters, bodies and captured scopes.

Both come to the expressions in turn, each in the context of the form itself, and then
the body in the context with the names bound, of equal names to the value of the last. -/
theorem play_eval_letForm
    {σ : Type} (bridge : Bridge σ) (world : σ) (ctx : Context)
    (bound : List (String × Value)) (e : Value) (body : List Value) (serial : Nat)
    (before : ctx.MadeBefore serial)
    (before_bound : ∀ b ∈ bound, b.2.MadeBefore serial)
    (before_body : ∀ part ∈ e :: body, part.MadeBefore serial)
    (before_replies : ∀ exchange ∈
      (bridge.play world (eval ctx (appliedLambda bound (e :: body)) serial)).exchanges,
      exchange.reply.MadeBefore serial)
    (finished : ∀ limit,
      (bridge.play world (eval ctx (appliedLambda bound (e :: body)) serial)).result.1 ≠
        .error (.fault (.recursionLimit limit))) :
    let applied := bridge.play world (eval ctx (appliedLambda bound (e :: body)) serial)
    let played := bridge.play world (eval ctx (letForm bound (e :: body)) serial)
    played.exchanges = applied.exchanges ∧ played.world = applied.world ∧
      applied.result.1 =
        renumberEnd (skip serial) (Value.renumber (skip serial)) played.result.1 ∧
      played = bridge.play world (bindingThen bound (e :: body) ctx serial) ∧
      ∀ vs front name v back,
        (bound.map (·.1)).zip vs = front ++ (name, v) :: back →
        (∀ b ∈ back, b.1 ≠ name) →
        (ctx.extend ((bound.map (·.1)).zip vs)).find? name = some v := by
  intro applied played
  obtain ⟨exchanges, last, result⟩ :=
    play_letForm_alike bridge world before before_bound before_body before_replies finished
  refine ⟨exchanges, last, result, ?_, ?_⟩
  · symm
    apply (follows_letForm bound e body).play_eq
    rintro stop stopped ⟨limit, rfl⟩
    apply finished limit
    exact result.trans (congrArg (renumberEnd _ _) stopped)
  · intro vs front name v back pairs later
    rw [pairs]
    exact Context.find?_extend_last later

/-- The second of two equal names is bound to what was written, and the lambda that the
body makes captures both. -/
theorem play_eval_letForm_repeated :
    let f : Value := .callable (.lambda ⟨0, [], [.string "v"], .empty⟩)
    let ctx := Context.root.define "f" f
    let bound : List (String × Value) :=
      [("x", .string "w"), ("x", .list [.symbol "put", .string "a", .list [.symbol "f"]])]
    let body : Value := .list [.symbol "list", .symbol "x", .symbol "f",
      .list [.symbol "lambda", .list [], .symbol "x"]]
    let replies : List Reply := [.value (.string "v")]
    let closure (serial : Nat) : Value :=
      .callable (.lambda ⟨serial, [], [.symbol "x"],
        ⟨[[("x", .string "w"), ("x", .string "v")]]⟩⟩)
    let applied := Interaction.prepared.play replies
      (eval ctx (appliedLambda bound [body]) 1)
    let played := Interaction.prepared.play replies (eval ctx (letForm bound [body]) 1)
    applied = ⟨[⟨.write "a" "v" .truncate, .value (.string "v")⟩],
        (.ok (.list [.string "v", f, closure 2]), 3), []⟩ ∧
      played.result.1 = .ok (.list [.string "v", f, closure 1]) ∧
      played.exchanges = applied.exchanges ∧
      applied.result.1 =
        renumberEnd (skip 1) (Value.renumber (skip 1)) played.result.1 := by
  intro f ctx bound body replies closure applied played
  have result : applied = ⟨[⟨.write "a" "v" .truncate, .value (.string "v")⟩],
      (.ok (.list [.string "v", f, closure 2]), 3), []⟩ := by
    with_unfolding_all rfl
  have before : ctx.MadeBefore 1 := by
    constructor
    · with_unfolding_all decide
    · intro frame around
      cases around
  have before_bound : ∀ b ∈ bound, b.2.MadeBefore 1 := by
    with_unfolding_all decide
  have before_body : ∀ part ∈ [body], part.MadeBefore 1 := by
    with_unfolding_all decide
  have before_replies : ∀ exchange ∈ applied.exchanges, exchange.reply.MadeBefore 1 := by
    rw [result]
    simp [Reply.MadeBefore, Value.MadeBefore, Value.serials]
  have finished : ∀ limit, applied.result.1 ≠ .error (.fault (.recursionLimit limit)) := by
    intro limit stopped
    rw [result] at stopped
    cases stopped
  have alike := play_eval_letForm Interaction.prepared replies ctx bound body [] 1 before
    before_bound before_body before_replies finished
  exact ⟨result, by with_unfolding_all rfl, alike.1, alike.2.2.1⟩

end Eval

end EffectLisp
