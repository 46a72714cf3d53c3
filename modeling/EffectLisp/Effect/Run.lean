import EffectLisp.Effect

/-!
# Runs

A run is a computation that keeps a state, makes requests, and may stop early.
It stops by a fault, which is part of the language, or by a panic, which is
not.  A reply of either kind stops the run that asked at once.
-/

namespace EffectLisp

/-- Why a run ended before its result. -/
inductive Stop where
  | fault (f : Fault)
  | panic (payload : Payload)

/-- A computation over a state that may stop early. -/
abbrev Run (σ : Type) : Type → Type :=
  ExceptT Stop (StateT σ Interaction)

namespace Run

variable {σ τ α : Type}

def fail (f : Fault) : Run σ α :=
  throw (.fault f)

def crash (payload : Payload) : Run σ α :=
  throw (.panic payload)

/-- A result or a fault as a run. -/
def ofExcept : Except Fault α → Run σ α
  | .ok result => pure result
  | .error f => fail f

/-- Make a request and take the answer as the result. -/
def perform (effect : Effect) : Run σ Value :=
  fun state => .request effect fun
    | .value v => .done (.ok v, state)
    | .fault f => .done (.error (.fault f), state)
    | .panic payload => .done (.error (.panic payload), state)

/-- Use a run over a part of the state. -/
def focus (get : τ → σ) (set : σ → τ → τ) (run : Run σ α) : Run τ α :=
  fun state => do
    let (result, part) ← run (get state)
    pure (result, set part state)

end Run

end EffectLisp
