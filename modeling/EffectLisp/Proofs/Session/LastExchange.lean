import EffectLisp.Proofs.Session.Closed
import EffectLisp.Proofs.Session.Trace

/-!
# The last exchange of a step

A reply that is a fault or a panic, and an answer to a probe that is no boolean,
stops the step that asked: there is no further request, and the outcome is what
the reply says.  No part of the evaluator and no kind of step recovers from it.
-/

namespace EffectLisp

/-- How a bridge without a boolean for a probe is reported. -/
def Fault.badProbe (path : String) (v : Value) : Fault :=
  .internal
    ("existence probe of " ++ path ++ " answered " ++ v.display ++ " instead of a bool")

/-- How an exchange stops the run that asked, if it does. -/
def Exchange.stop? : Exchange → Option Stop
  | ⟨_, .fault f⟩ => some (.fault f)
  | ⟨_, .panic payload⟩ => some (.panic payload)
  | ⟨.probe _, .value (.bool _)⟩ => none
  | ⟨.probe path, .value v⟩ => some (.fault (.badProbe path v))
  | ⟨_, .value _⟩ => none

/-- An exchange that stops a run is the last, and the run stops so. -/
def StopsLast {α : Type} (exchanges : List Exchange) (result : Except Stop α) : Prop :=
  ∀ before exchange after stop,
    exchanges = before ++ exchange :: after → exchange.stop? = some stop →
      after = [] ∧ result = .error stop

namespace StopsLast

variable {α β : Type}

theorem nil (result : Except Stop α) : StopsLast [] result := by
  intro before exchange after stop split
  simp at split

theorem single
    {only : Exchange} {result : Except Stop α}
    (stops : ∀ stop, only.stop? = some stop → result = .error stop) :
    StopsLast [only] result := by
  intro before exchange after stop split stopped
  cases before with
  | nil =>
      cases split
      exact ⟨rfl, stops stop stopped⟩
  | cons first before => simp at split

theorem error
    {exchanges : List Exchange} {stop : Stop}
    (last : StopsLast exchanges (.error stop : Except Stop α)) :
    StopsLast exchanges (.error stop : Except Stop β) := by
  intro before exchange after other split stopped
  obtain ⟨rfl, same⟩ := last before exchange after other split stopped
  cases same
  exact ⟨rfl, rfl⟩

theorem append
    {front back : List Exchange} {a : α} {result : Except Stop β}
    (first : StopsLast front (.ok a)) (second : StopsLast back result) :
    StopsLast (front ++ back) result := by
  intro before exchange after stop split stopped
  rcases List.append_eq_append_iff.mp split with
    ⟨middle, rfl, later⟩ | ⟨middle, within, rest⟩
  · exact second middle exchange after stop later stopped
  · cases middle with
    | nil => exact second [] exchange after stop rest.symm stopped
    | cons head middle =>
        -- A stop in the first part contradicts its result.
        cases rest
        have impossible := (first before exchange middle stop within stopped).2
        cases impossible

end StopsLast

/-- A probe makes its one request and takes a boolean for the answer. -/
theorem Primitive.trace_probe_iff
    {path : String} {state final : Nat} {exchanges : List Exchange}
    {result : Except Stop Bool} :
    Run.Trace (probe path) state exchanges result final ↔
      ∃ reply : Reply,
        exchanges = [⟨.probe path, reply⟩] ∧ final = state ∧
          result = match reply with
            | .value (.bool found) => .ok found
            | .value v => .error (.fault (.badProbe path v))
            | .fault f => .error (.fault f)
            | .panic payload => .error (.panic payload) := by
  have asked : probe path state =
      .request (.probe path) fun
        | .value (.bool found) => .done (.ok found, state)
        | .value v => .done (.error (.fault (.badProbe path v)), state)
        | .fault f => .done (.error (.fault f), state)
        | .panic payload => .done (.error (.panic payload), state) := by
    refine congrArg (Interaction.request (.probe path)) (funext fun reply => ?_)
    rcases reply with v | f | payload
    · cases v <;> rfl
    · rfl
    · rfl
  rw [Run.Trace, asked, Interaction.path_request_iff]
  constructor
  · intro given
    obtain ⟨reply, later, rfl, rest⟩ := given
    refine ⟨reply, ?_⟩
    rcases reply with v | f | payload
    · cases v <;> cases rest <;> exact ⟨rfl, rfl, rfl⟩
    · cases rest
      exact ⟨rfl, rfl, rfl⟩
    · cases rest
      exact ⟨rfl, rfl, rfl⟩
  · intro given
    obtain ⟨reply, rfl, rfl, rfl⟩ := given
    refine ⟨reply, [], rfl, ?_⟩
    rcases reply with v | f | payload
    · cases v <;> exact .done _
    · exact .done _
    · exact .done _

/-- In every trace of the run an exchange that stops it is the last. -/
def Run.StopsOnFault {σ α : Type} (run : Run σ α) : Prop :=
  ∀ state exchanges result final,
    Trace run state exchanges result final → StopsLast exchanges result

namespace Run

variable {σ α : Type}

theorem stopsOnFault_of_silent
    {run : Run σ α}
    (silent : ∀ state exchanges result final,
      Trace run state exchanges result final → exchanges = []) :
    StopsOnFault run := by
  intro state exchanges result final trace
  rw [silent state exchanges result final trace]
  exact .nil result

theorem stopsOnFault_perform
    {effect : Effect} (noProbe : ∀ path, effect ≠ .probe path) :
    StopsOnFault (perform effect : Run σ Value) := by
  intro state exchanges result final trace
  obtain ⟨reply, rfl, rfl, rfl⟩ := trace_perform_iff.mp trace
  refine .single fun stop stopped => ?_
  rcases reply with v | f | payload
  · cases effect with
    | probe path => exact absurd rfl (noProbe path)
    | _ => simp [Exchange.stop?] at stopped
  · cases stopped
    rfl
  · cases stopped
    rfl

theorem stopsOnFault_probe (path : String) : StopsOnFault (Primitive.probe path) := by
  intro state exchanges result final trace
  obtain ⟨reply, rfl, rfl, rfl⟩ := Primitive.trace_probe_iff.mp trace
  refine .single fun stop stopped => ?_
  rcases reply with v | f | payload
  · cases v <;> cases stopped <;> rfl
  · cases stopped
    rfl
  · cases stopped
    rfl

theorem stopsOnFault_closed : Closed @StopsOnFault where
  pure _ := stopsOnFault_of_silent fun _ _ _ _ trace => (trace_pure_iff.mp trace).1
  fail _ := stopsOnFault_of_silent fun _ _ _ _ trace => (trace_fail_iff.mp trace).1
  getState := stopsOnFault_of_silent fun _ _ _ _ trace => (trace_get_iff.mp trace).1
  setState _ := stopsOnFault_of_silent fun _ _ _ _ trace => (trace_set_iff.mp trace).1
  modifyState _ :=
    stopsOnFault_of_silent fun _ _ _ _ trace => (trace_modify_iff.mp trace).1
  probe := stopsOnFault_probe
  perform _ noProbe := stopsOnFault_perform noProbe
  bind first next := by
    intro state exchanges result final trace
    rcases trace_bind_iff.mp trace with
      ⟨a, middle, front, back, rfl, path, later⟩ | ⟨stop, rfl, path⟩
    · exact (first _ _ _ _ path).append (next a _ _ _ _ later)
    · exact (first _ _ _ _ path).error
  focus get set _ inner := by
    intro state exchanges result final trace
    obtain ⟨part, path, rfl⟩ := trace_focus_iff.mp trace
    exact inner _ _ _ _ path

end Run

namespace Session

/-- No step goes on after an exchange that stops it. -/
theorem stopsOnFault_step (room : Nat) (form : Value) :
    Run.StopsOnFault (step room form) := by
  refine Run.stopsOnFault_closed.step ?_ room form
  intro α load inner session exchanges result final trace
  obtain ⟨left, path, rfl⟩ := trace_counted_iff.mp trace
  exact inner _ _ _ _ path

/-- After a fault, a panic or an answer that is no boolean to a probe a form makes
no further request, and its outcome is that fault, the report of the panic, or an
internal fault. -/
theorem last_exchange_of_fault
    {session next : Session} {form : Value} {outcome : Outcome}
    {before after : List Exchange} {exchange : Exchange}
    (path : Interaction.Path (session.runForm form) (before ++ exchange :: after)
      (outcome, next)) :
    (∀ f, exchange.reply = .fault f → after = [] ∧ outcome = .fault f) ∧
      (∀ payload, exchange.reply = .panic payload →
        after = [] ∧ outcome = .fault (.panicked payload) ∧
          (Fault.panicked payload).kind = "Internal") ∧
      (∀ file v, exchange.effect = .probe file → exchange.reply = .value v →
        (∀ found, v ≠ .bool found) →
        after = [] ∧ outcome = .fault (.badProbe file v) ∧
          (Fault.badProbe file v).kind = "Internal") := by
  obtain ⟨result, trace, rfl⟩ := path_runForm_iff.mp path
  have last := fun stop =>
    stopsOnFault_step _ form _ _ _ _ trace before exchange after stop rfl
  obtain ⟨effect, reply⟩ := exchange
  refine ⟨?_, ?_, ?_⟩
  · rintro f rfl
    obtain ⟨ends, rfl⟩ := last (.fault f) rfl
    exact ⟨ends, rfl⟩
  · rintro payload rfl
    obtain ⟨ends, rfl⟩ := last (.panic payload) rfl
    exact ⟨ends, rfl, by cases payload <;> rfl⟩
  · rintro file v rfl rfl notBool
    have stops : (Exchange.mk (.probe file) (.value v)).stop? =
        some (.fault (.badProbe file v)) := by
      cases v with
      | bool found => exact absurd rfl (notBool found)
      | _ => rfl
    obtain ⟨ends, rfl⟩ := last _ stops
    exact ⟨ends, rfl, rfl⟩

/-- A fault in the second of three operands that make requests, and a panic and a
number in place of the answer to a probe. -/
theorem last_exchange_of_fault_operands :
    (Interaction.Path
        ((start .root 0).runForm
          (.list [.symbol "list", .list [.symbol "put", .string "a", .string "x"],
            .list [.symbol "slurp", .string "b"],
            .list [.symbol "fileExists", .string "c"]]))
        ([⟨.write "a" "x" .truncate, .value (.string "x")⟩] ++
          ⟨.probe "b", .fault (.unbound "q")⟩ :: [])
        (.fault (.unbound "q"), start .root 0) ∧
      Outcome.fault (.unbound "q") = .fault (.unbound "q")) ∧
    (Interaction.Path
        ((start .root 0).runForm (.list [.symbol "slurp", .string "b"]))
        ([] ++ ⟨.probe "b", .panic .other⟩ :: [])
        (.fault (.panicked .other), start .root 0) ∧
      (Fault.panicked .other).kind = "Internal") ∧
    (Interaction.Path
        ((start .root 0).runForm (.list [.symbol "slurp", .string "b"]))
        ([] ++ ⟨.probe "b", .value (.list [])⟩ :: [])
        (.fault (.badProbe "b" (.list [])), start .root 0) ∧
      (Fault.badProbe "b" (.list [])).kind = "Internal") := by
  refine ⟨?_, ?_, ?_⟩
  · refine (and_iff_left_of_imp fun path => ?_).mpr ?_
    · exact ((last_exchange_of_fault path).1 _ rfl).2
    · with_unfolding_all exact .request _ _ (.request _ _ (.done _))
  · refine (and_iff_left_of_imp fun path => ?_).mpr ?_
    · exact ((last_exchange_of_fault path).2.1 _ rfl).2.2
    · with_unfolding_all exact .request _ _ (.done _)
  · refine (and_iff_left_of_imp fun path => ?_).mpr ?_
    · exact ((last_exchange_of_fault path).2.2 _ _ rfl rfl nofun).2.2
    · with_unfolding_all exact .request _ _ (.done _)

end Session

end EffectLisp
