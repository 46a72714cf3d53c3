import EffectLisp.Eval

/-!
# Sessions

A session runs top-level forms one after the other.  Each form is one step:
whatever goes wrong in it, be it a fault or a panic, becomes the outcome of the
step, and the next form runs.  Only a successful definition changes the
bindings, so a step that fails leaves those it did not define as they were.

`define` and `load` are the forms that change a session, and are legal only at
top level.  A load runs the forms of a file as steps of the load itself and
stops at the first that fails; loads within loads count towards the depth limit
of the context.
-/

namespace EffectLisp

/-- The bindings of a session, the loads in progress within the current step,
and the serial number of the next lambda. -/
structure Session where
  context : Context
  loading : Nat
  serial : Nat

inductive Outcome where
  | value (v : Value)
  | fault (f : Fault)

/-- A top-level form by what it does to the session. -/
inductive TopLevelForm where
  | define (operands : List Value)
  | load (operands : List Value)
  | expression (e : Value)

/-- A form whose head is `define` or `load` is no expression. -/
def TopLevelForm.ofValue : Value → TopLevelForm
  | .list (.symbol name :: operands) =>
      if name = "define" then .define operands
      else if name = "load" then .load operands
      else .expression (.list (.symbol name :: operands))
  | e => .expression e

namespace Session

abbrev Step := Run Session

/-- A session in a context, in which lambdas are numbered from `serial` on. -/
def start (context : Context) (serial : Nat) : Session :=
  ⟨context, 0, serial⟩

/-- Use the evaluator in the session's context. -/
def inContext {α : Type} (evaluation : Context → Evaluation α) : Step α := do
  let session ← get
  Run.focus Session.serial (fun serial session => { session with serial })
    (evaluation session.context)

def bindGlobal (name : String) (v : Value) : Step Unit :=
  modify fun session => { session with context := session.context.define name v }

/-- The name and the value of a definition: `(define name expr)`, or
`(define (name params...) body...)` for a lambda. -/
def definition (context : Context) : List Value → Evaluation (String × Value)
  | [.symbol name, e] => do pure (name, ← Eval.eval context e)
  | .list signature :: e :: body =>
      match signature with
      | .symbol name :: params => do
          let names ← Eval.parameterNames "define" params
          pure (name, ← Eval.makeLambda context.scope names (e :: body))
      | _ => Run.fail (.badForm "define" .functionName)
  | _ => Run.fail (.badForm "define" .defineOperands)

/-- Run a definition; its value is the name that is bound. -/
def define (operands : List Value) : Step Value := do
  let (name, v) ← inContext fun context => definition context operands
  bindGlobal name v
  pure (.symbol name)

/-- Count a load as in progress while it runs.  After a panic the count is left
as it is: the next form starts a new one. -/
def counted {α : Type} (load : Step α) : Step α := fun session => do
  let (result, session) ← load { session with loading := session.loading + 1 }
  match result with
  | .error (.panic payload) => pure (.error (.panic payload), session)
  | result => pure (result, { session with loading := session.loading - 1 })

/-- The text of the file that a load names, by whatever `slurp` is bound to. -/
def fileText (context : Context) : List Value → Evaluation String
  | [e] => do
      let path ← Eval.eval context e
      match context.find? "slurp" with
      | none => Run.fail (.unbound "slurp")
      | some (.callable slurp) => do
          match ← Eval.apply context slurp [path] with
          | .string text => pure text
          | other => Run.fail (.typeMismatch .string other)
      | some other => Run.fail (.typeMismatch .callable other)
  | _ => Run.fail (.badForm "load" .loadOperands)

/-- Run forms in turn by `run`; the last value, or `last` if there are none. -/
def stepsFrom (run : Value → Step Value) (last : Value) : List Value → Step Value
  | [] => pure last
  | form :: forms => do stepsFrom run (← run form) forms

/-- Load a file, and run each of its forms by `run`. -/
def loadFile (run : Value → Step Value) (operands : List Value) : Step Value := do
  let text ← inContext fun context => fileText context operands
  let forms ← Run.ofExcept (Datum.readAll text)
  stepsFrom run .unit forms

/-- One step.  At most `room` more loads can be entered within each other; a
form starts with as many as the limit, so the room and the loads in progress
add up to the limit. -/
def step (room : Nat) (form : Value) : Step Value :=
  match TopLevelForm.ofValue form with
  | .define operands => define operands
  | .expression e => inContext fun context => Eval.eval context e
  | .load operands => do
      let session ← get
      if session.context.maxDepth ≤ session.loading then
        Run.fail (.recursionLimit session.context.maxDepth)
      else
        match room with
        | 0 => Run.fail (.recursionLimit session.context.maxDepth)
        | room + 1 => counted (loadFile (step room) operands)

def outcomeOf : Except Stop Value → Outcome
  | .ok v => .value v
  | .error (.fault f) => .fault f
  | .error (.panic payload) => .fault (.panicked payload)

def runForm (session : Session) (form : Value) : Interaction (Outcome × Session) := do
  let (result, session) ← step session.context.maxDepth form { session with loading := 0 }
  pure (outcomeOf result, session)

/-- Run top-level forms in turn, each whatever became of those before it. -/
def runForms (session : Session) : List Value → Interaction (List Outcome × Session)
  | [] => pure ([], session)
  | form :: forms => do
      let (outcome, session) ← session.runForm form
      let (outcomes, session) ← session.runForms forms
      pure (outcome :: outcomes, session)

/-- Run the forms of a text.  A text that cannot be read has one outcome, and
nothing of it runs. -/
def run (session : Session) (source : String) : Interaction (List Outcome × Session) :=
  match Datum.readAll source with
  | .ok forms => session.runForms forms
  | .error fault => pure ([.fault fault], session)

end Session

namespace Outcome

def isFault : Outcome → Bool
  | value _ => false
  | fault _ => true

/-- The outcome as a result or a fault. -/
def toExcept : Outcome → Except Fault Value
  | value v => .ok v
  | fault f => .error f

/-- The outcome in one line: a value as its text, a fault by class and text. -/
def display : Outcome → String
  | value v => v.display
  | fault f => f.kind ++ ": " ++ f.message

end Outcome

/-- A fault as a terminal shows it, its class in red where colors are wanted. -/
def Fault.line (color : Bool) (f : Fault) : String :=
  if color then "\x1b[31mError[" ++ f.kind ++ "]\x1b[0m: " ++ f.message
  else "Error[" ++ f.kind ++ "]: " ++ f.message

def Outcome.line (color : Bool) : Outcome → String
  | .value v => v.display
  | .fault f => f.line color

/-- The value of the last form, or the first fault among the outcomes. -/
def Outcome.last (outcomes : List Outcome) : Except Fault Value :=
  outcomes.foldlM (fun _ outcome => outcome.toExcept) .unit

def evalText (source : String) : Interaction (Except Fault Value) := do
  let (outcomes, _) ← (Session.start .root 0).run source
  pure (Outcome.last outcomes)

end EffectLisp
