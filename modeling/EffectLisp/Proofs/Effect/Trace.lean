import EffectLisp.Effect.Run
import EffectLisp.Proofs.Effect.Path

/-!
# Traces of runs

A trace of a run is a path from a state to a result and a state.  What the traces
of a run are is told by those of its parts.
-/

namespace EffectLisp

/-- What a reply is for the run that asked. -/
def Reply.answer : Reply → Except Stop Value
  | .value v => .ok v
  | .fault f => .error (.fault f)
  | .panic payload => .error (.panic payload)

namespace Run

variable {σ τ α β : Type}

/-- A path through a run that starts and ends in some states. -/
def Trace (run : Run σ α) (state : σ) (exchanges : List Exchange)
    (result : Except Stop α) (final : σ) : Prop :=
  Interaction.Path (run state) exchanges (result, final)

section

variable {state final : σ} {exchanges : List Exchange}

theorem trace_iff_of_done
    {run : Run σ α} {given result : Except Stop α} {last : σ}
    (done : run state = .done (given, last)) :
    Trace run state exchanges result final ↔
      exchanges = [] ∧ result = given ∧ final = last := by
  rw [Trace, done, Interaction.path_done_iff, Prod.mk.injEq]

@[simp] theorem trace_pure_iff {a : α} {result : Except Stop α} :
    Trace (pure a : Run σ α) state exchanges result final ↔
      exchanges = [] ∧ result = .ok a ∧ final = state :=
  trace_iff_of_done rfl

@[simp] theorem trace_fail_iff {f : Fault} {result : Except Stop α} :
    Trace (fail f : Run σ α) state exchanges result final ↔
      exchanges = [] ∧ result = .error (.fault f) ∧ final = state :=
  trace_iff_of_done rfl

@[simp] theorem trace_get_iff {result : Except Stop σ} :
    Trace (get : Run σ σ) state exchanges result final ↔
      exchanges = [] ∧ result = .ok state ∧ final = state :=
  trace_iff_of_done rfl

@[simp] theorem trace_modify_iff {change : σ → σ} {result : Except Stop PUnit} :
    Trace (modify change : Run σ PUnit) state exchanges result final ↔
      exchanges = [] ∧ result = .ok ⟨⟩ ∧ final = change state :=
  trace_iff_of_done rfl

@[simp] theorem trace_set_iff {other : σ} {result : Except Stop PUnit} :
    Trace (set other : Run σ PUnit) state exchanges result final ↔
      exchanges = [] ∧ result = .ok ⟨⟩ ∧ final = other :=
  trace_iff_of_done rfl

theorem trace_perform_iff {effect : Effect} {result : Except Stop Value} :
    Trace (perform effect : Run σ Value) state exchanges result final ↔
      ∃ reply : Reply,
        exchanges = [⟨effect, reply⟩] ∧ result = reply.answer ∧ final = state := by
  unfold Trace perform
  rw [Interaction.path_request_iff]
  constructor
  · intro given
    obtain ⟨reply, later, rfl, path⟩ := given
    cases reply <;> cases path <;> exact ⟨_, rfl, rfl, rfl⟩
  · intro given
    obtain ⟨reply, rfl, rfl, rfl⟩ := given
    refine ⟨reply, [], rfl, ?_⟩
    cases reply <;> exact .done _

theorem trace_ofExcept_iff {given : Except Fault α} {result : Except Stop α} :
    Trace (ofExcept given : Run σ α) state exchanges result final ↔
      exchanges = [] ∧ result = given.mapError .fault ∧ final = state := by
  cases given with
  | ok a => exact trace_pure_iff
  | error f => exact trace_fail_iff

/-- A run goes on with the result of its first part, unless that stops. -/
theorem bind_eq (first : Run σ α) (next : α → Run σ β) (state : σ) :
    (first >>= next) state =
      (first state).bind fun
        | (.ok a, middle) => next a middle
        | (.error stop, middle) => .done (.error stop, middle) := by
  refine congrArg (Interaction.bind (first state)) (funext fun middle => ?_)
  obtain ⟨result | result, middle⟩ := middle <;> rfl

theorem trace_bind_iff
    {first : Run σ α} {next : α → Run σ β} {result : Except Stop β} :
    Trace (first >>= next) state exchanges result final ↔
      (∃ a middle front back,
        exchanges = front ++ back ∧ Trace first state front (.ok a) middle ∧
          Trace (next a) middle back result final) ∨
      ∃ stop,
        result = .error stop ∧ Trace first state exchanges (.error stop) final := by
  unfold Trace
  rw [bind_eq, Interaction.path_bind_iff]
  constructor
  · intro given
    obtain ⟨front, ⟨middle, state⟩, back, rfl, path, later⟩ := given
    cases middle with
    | ok a => exact .inl ⟨a, state, front, back, rfl, path, later⟩
    | error stop =>
        cases later
        rw [List.append_nil]
        exact .inr ⟨stop, rfl, path⟩
  · intro given
    rcases given with ⟨a, middle, front, back, rfl, path, later⟩ | ⟨stop, rfl, path⟩
    · exact ⟨front, (.ok a, middle), back, rfl, path, later⟩
    · exact ⟨exchanges, (.error stop, final), [], by simp, path, .done _⟩

end

/-- A sequence of which the first part is answered is played from where that ends. -/
theorem Trace.play_bind
    {first : Run σ α} {next : α → Run σ β} {state middle : σ} {exchanges : List Exchange}
    {a : α} (trace : Trace first state exchanges (.ok a) middle)
    {ω : Type} {bridge : Bridge ω} {world last : ω}
    (answers : Interaction.Answers bridge world exchanges last) :
    bridge.play world ((first >>= next) state) =
      let rest := bridge.play last (next a middle)
      ⟨exchanges ++ rest.exchanges, rest.result, rest.world⟩ := by
  rw [bind_eq, Interaction.play_bind, Interaction.Path.play_eq_of_answers trace answers]

theorem trace_focus_iff
    {get : τ → σ} {set : σ → τ → τ} {run : Run σ α} {state final : τ}
    {exchanges : List Exchange} {result : Except Stop α} :
    Trace (focus get set run) state exchanges result final ↔
      ∃ part, Trace run (get state) exchanges result part ∧ final = set part state := by
  have mapped : focus get set run state =
      (run (get state)).bind fun pair => .done (pair.1, set pair.2 state) := rfl
  rw [Trace, mapped, Interaction.path_map_iff]
  constructor
  · intro given
    obtain ⟨⟨middle, part⟩, inner, same⟩ := given
    cases same
    exact ⟨part, inner, rfl⟩
  · intro given
    obtain ⟨part, inner, rfl⟩ := given
    exact ⟨(result, part), inner, rfl⟩

end Run

end EffectLisp
