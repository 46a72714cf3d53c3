import EffectLisp.Context
import EffectLisp.Eval.Primitives

/-!
# Evaluation

A symbol evaluates to what it is bound to, a non-empty list is a special form
or a call, and everything else evaluates to itself.  Every non-empty list and
every call of a lambda costs one level of depth, and so does the primitive
`eval`; the levels that are left are the measure by which evaluation ends.

`eval` and `apply` are the two halves of the evaluator.  What happens between
their calls (sequences, operands, bindings) is stated over any evaluator.
-/

namespace EffectLisp

/-- The forms that are evaluated by rules of their own. -/
inductive SpecialForm where
  | quote
  | ifThen
  | lambda
  | letIn
  | begin
  /-- A form that is legal only where no other form encloses it. -/
  | topLevelOnly (name : String)
  deriving DecidableEq, Repr

/-- The special form that a name in operator position stands for. -/
def SpecialForm.ofName? : String → Option SpecialForm
  | "quote" => some .quote
  | "if" => some .ifThen
  | "lambda" => some .lambda
  | "let" => some .letIn
  | "begin" => some .begin
  | "define" => some (.topLevelOnly "define")
  | "load" => some (.topLevelOnly "load")
  | _ => none

/-- The special form that a head stands for. -/
def SpecialForm.ofHead? : Value → Option SpecialForm
  | .symbol name => ofName? name
  | _ => none

namespace Eval

abbrev Evaluator (σ : Type) := Value → Run σ Value

variable {σ : Type}

/-- Evaluate expressions in turn; the last value, or `last` if there are none. -/
def sequenceFrom (evaluate : Evaluator σ) (last : Value) : List Value → Run σ Value
  | [] => pure last
  | e :: es => do sequenceFrom evaluate (← evaluate e) es

/-- Evaluate expressions in turn; the last value, or the empty list. -/
def sequence (evaluate : Evaluator σ) (body : List Value) : Run σ Value :=
  sequenceFrom evaluate .unit body

/-- Evaluate operands from left to right. -/
def operands (evaluate : Evaluator σ) : List Value → Run σ (List Value)
  | [] => pure []
  | e :: es => do
      let v ← evaluate e
      let vs ← operands evaluate es
      pure (v :: vs)

/-- `(quote datum)` is the datum as it is. -/
def evalQuote : List Value → Evaluation Value
  | [datum] => pure datum
  | _ => Run.fail (.badForm "quote" .quoteOperands)

/-- `(if condition consequence [alternative])`: only the false boolean chooses
the alternative, which is the empty list if there is none. -/
def evalIf (evaluate : Evaluator σ) : List Value → Run σ Value
  | [condition, consequence] => do
      if (← evaluate condition).isTruthy then evaluate consequence else pure .unit
  | [condition, consequence, alternative] => do
      if (← evaluate condition).isTruthy then evaluate consequence else evaluate alternative
  | _ => Run.fail (.badForm "if" .ifOperands)

def parameterNames (form : String) : List Value → Evaluation (List String)
  | [] => pure []
  | .symbol name :: params => do
      let names ← parameterNames form params
      pure (name :: names)
  | other :: _ => Run.fail (.badForm form (.parameterNotSymbol other))

/-- A new lambda that closes over a scope. -/
def makeLambda (scope : Scope Value) (params : List String) (body : List Value) :
    Evaluation Value := do
  let serial ← get
  set (serial + 1)
  pure (.callable (.lambda ⟨serial, params, body, scope⟩))

/-- `(lambda (params...) body...)`. -/
def evalLambda (scope : Scope Value) : List Value → Evaluation Value
  | params :: e :: body =>
      match params with
      | .list params => do
          let names ← parameterNames "lambda" params
          makeLambda scope names (e :: body)
      | _ => Run.fail (.badForm "lambda" .parametersNotList)
  | _ => Run.fail (.badForm "lambda" .lambdaOperands)

/-- Evaluate the bindings of a `let` form in turn, each outside of all of them. -/
def bindings (evaluate : Evaluator σ) : List Value → Run σ (List (String × Value))
  | [] => pure []
  | .list [name, e] :: rest =>
      match name with
      | .symbol name => do
          let v ← evaluate e
          let frame ← bindings evaluate rest
          pure ((name, v) :: frame)
      | _ => Run.fail (.badForm "let" .bindingName)
  | other :: _ => Run.fail (.badForm "let" (.badBinding other))

/-- `(let ((name expr)...) body...)`: the bindings and the body. -/
def letParts : List Value → Evaluation (List Value × List Value)
  | .list bindings :: e :: body => pure (bindings, e :: body)
  | _ => Run.fail (.badForm "let" .letOperands)

def operator : Value → Evaluation (Callable Value)
  | .callable c => pure c
  | other => Run.fail (.typeMismatch .operator other)

/-- Refuse a number of arguments that a function does not take. -/
def checkArity (name : String) (expected : Arity) (given : Nat) : Evaluation Unit :=
  if expected.accepts given then pure () else Run.fail (.arity name expected given)

mutual

def eval (ctx : Context) (e : Value) : Evaluation Value :=
  match e with
  | .symbol name =>
      match ctx.find? name with
      | some v => pure v
      | none => Run.fail (.unbound name)
  | .list (head :: rest) =>
      match _entered : ctx.nested with
      | .error fault => Run.fail fault
      | .ok inner =>
          match SpecialForm.ofHead? head with
          | some .quote => evalQuote rest
          | some .ifThen => evalIf (eval inner) rest
          | some .lambda => evalLambda inner.scope rest
          | some .letIn => do
              let (bound, body) ← letParts rest
              let frame ← bindings (eval inner) bound
              sequence (eval (inner.extend frame)) body
          | some .begin => sequence (eval inner) rest
          | some (.topLevelOnly name) => Run.fail (.badForm name .notAtTopLevel)
          | none => do
              let callee ← eval inner head
              let c ← operator callee
              let args ← operands (eval inner) rest
              apply inner c args
  | other => pure other
  termination_by ctx.room
  decreasing_by all_goals simpa using Context.room_lt_of_nested _entered

/-- Apply a function to arguments in a context. -/
def apply (ctx : Context) (c : Callable Value) (args : List Value) : Evaluation Value :=
  match c with
  | .primitive p => do
      checkArity p.name p.arity args.length
      match p, args with
      | .evalValue, [v] =>
          match _entered : ctx.nested with
          | .error fault => Run.fail fault
          | .ok inner => eval inner v
      | p, args => p.run args
  | .lambda l => do
      checkArity "lambda" (.exactly l.params.length) args.length
      match _entered : ctx.enter l.scope with
      | .error fault => Run.fail fault
      | .ok inner =>
          sequence (eval (inner.extend (l.params.zip args))) l.body
  termination_by ctx.room
  decreasing_by all_goals simpa using Context.room_lt_of_enter _entered

end

end Eval

end EffectLisp
