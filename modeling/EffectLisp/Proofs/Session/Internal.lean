import EffectLisp.Proofs.Datum.Offsets
import EffectLisp.Proofs.Session.LastExchange
import EffectLisp.Proofs.Session.Moments

/-!
# Internal faults

The language has no internal faults of its own, and no part of it panics by itself.  A
step whose outcome is an internal fault has ended with a reply that says so: a panic, an
internal fault, or an answer to a probe that is no boolean.
-/

namespace EffectLisp

open Interaction (Path)
open Run (Trace)

/-- A stop that the language has no cause for. -/
def Stop.IsInternal : Stop → Prop
  | .fault f => f.IsInternal
  | .panic _ => True

/-- The bridge panics, gives an internal fault itself, or answers a probe with something
that is no boolean. -/
def Exchange.Breaks (exchange : Exchange) : Prop :=
  (∃ payload, exchange.reply = .panic payload) ∨
  (∃ f, exchange.reply = .fault f ∧ f.kind = "Internal") ∨
  ∃ path v, exchange.effect = .probe path ∧ exchange.reply = .value v ∧
    ∀ found, v ≠ .bool found

theorem Fault.kind_eq_internal_iff {f : Fault} : f.kind = "Internal" ↔ f.IsInternal := by
  cases f <;> simp [kind, IsInternal]

theorem Exchange.breaks_of_stop?
    {exchange : Exchange} {stop : Stop} (stops : exchange.stop? = some stop)
    (internal : stop.IsInternal) : exchange.Breaks := by
  obtain ⟨effect, reply⟩ := exchange
  cases reply with
  | panic payload => exact .inl ⟨payload, rfl⟩
  | fault f =>
      have same : some (Stop.fault f) = some stop := by
        cases effect <;> exact stops
      cases same
      exact .inr (.inl ⟨f, rfl, Fault.kind_eq_internal_iff.mpr internal⟩)
  | value v =>
      cases effect with
      | probe path =>
          refine .inr (.inr ⟨path, v, rfl, rfl, ?_⟩)
          intro found same
          subst same
          cases stops
      | _ => simp [stop?] at stops

theorem Exchange.reply_of_stop?_panic
    {exchange : Exchange} {payload : Payload}
    (stops : exchange.stop? = some (.panic payload)) : exchange.reply = .panic payload := by
  obtain ⟨effect, reply⟩ := exchange
  cases reply with
  | panic given =>
      have same : some (Stop.panic given) = some (.panic payload) := by
        cases effect <;> exact stops
      cases same
      rfl
  | fault f => simp [stop?] at stops
  | value v =>
      cases effect with
      | probe path => cases v <;> cases stops
      | _ => simp [stop?] at stops

/-- A run that ends in an internal stop has it from the last reply. -/
def EndsByReply {α : Type} (exchanges : List Exchange) (result : Except Stop α) : Prop :=
  ∀ stop, result = .error stop → stop.IsInternal →
    ∃ before exchange, exchanges = before ++ [exchange] ∧ exchange.stop? = some stop

namespace EndsByReply

variable {α β : Type}

theorem ok (exchanges : List Exchange) (a : α) : EndsByReply exchanges (.ok a) := nofun

theorem single
    {only : Exchange} {result : Except Stop α}
    (stops : ∀ stop, result = .error stop → only.stop? = some stop) :
    EndsByReply [only] result := by
  intro stop ended _
  exact ⟨[], only, rfl, stops stop ended⟩

theorem error
    {exchanges : List Exchange} {stop : Stop}
    (last : EndsByReply exchanges (.error stop : Except Stop α)) :
    EndsByReply exchanges (.error stop : Except Stop β) := by
  intro other same
  cases same
  exact last stop rfl

theorem append
    {back : List Exchange} {result : Except Stop β} (last : EndsByReply back result)
    (front : List Exchange) : EndsByReply (front ++ back) result := by
  intro stop ended internal
  obtain ⟨before, exchange, rfl, stops⟩ := last stop ended internal
  exact ⟨front ++ before, exchange, (List.append_assoc ..).symm, stops⟩

end EndsByReply

namespace Run

variable {σ α : Type}

/-- In every trace of the run internal stops are by the last reply. -/
def StopsByReply (run : Run σ α) : Prop :=
  ∀ state exchanges result final,
    Trace run state exchanges result final → EndsByReply exchanges result

theorem stopsByReply_of_never
    {run : Run σ α}
    (never : ∀ state exchanges stop final,
      Trace run state exchanges (.error stop) final → ¬stop.IsInternal) :
    StopsByReply run := by
  intro state exchanges result final trace stop ended internal
  subst ended
  exact absurd internal (never state exchanges stop final trace)

theorem stopsByReply_perform (effect : Effect) :
    StopsByReply (perform effect : Run σ Value) := by
  intro state exchanges result final trace
  obtain ⟨reply, rfl, rfl, rfl⟩ := trace_perform_iff.mp trace
  apply EndsByReply.single
  intro stop ended
  cases reply <;> cases ended <;> cases effect <;> rfl

theorem stopsByReply_probe (path : String) : StopsByReply (Primitive.probe path) := by
  intro state exchanges result final trace
  obtain ⟨reply, rfl, rfl, rfl⟩ := Primitive.trace_probe_iff.mp trace
  apply EndsByReply.single
  intro stop ended
  rcases reply with v | f | payload
  · cases v <;> cases ended <;> rfl
  · cases ended
    rfl
  · cases ended
    rfl

theorem stopsByReply_closed : Closed @StopsByReply where
  pure a := stopsByReply_of_never fun _ _ _ _ trace => by
    cases (trace_pure_iff.mp trace).2.1
  fail ordinary := stopsByReply_of_never fun _ _ _ _ trace => by
    cases (trace_fail_iff.mp trace).2.1
    exact ordinary
  getState := stopsByReply_of_never fun _ _ _ _ trace => by
    cases (trace_get_iff.mp trace).2.1
  setState _ := stopsByReply_of_never fun _ _ _ _ trace => by
    cases (trace_set_iff.mp trace).2.1
  modifyState _ := stopsByReply_of_never fun _ _ _ _ trace => by
    cases (trace_modify_iff.mp trace).2.1
  probe := stopsByReply_probe
  perform effect _ := stopsByReply_perform effect
  bind first next := by
    intro state exchanges result final trace
    rcases trace_bind_iff.mp trace with
      ⟨a, middle, front, back, rfl, path, later⟩ | ⟨stop, rfl, path⟩
    · exact (next a _ _ _ _ later).append front
    · exact (first _ _ _ _ path).error
  focus get set _ inner := by
    intro state exchanges result final trace
    obtain ⟨part, path, rfl⟩ := trace_focus_iff.mp trace
    exact inner _ _ _ _ path

/-- A run that panics has been given the panic. -/
theorem StopsByReply.panicked
    {run : Run σ α} (byReply : StopsByReply run) {state final : σ}
    {exchanges : List Exchange} {payload : Payload}
    (trace : Trace run state exchanges (.error (.panic payload)) final) :
    ∃ before exchange,
      exchanges = before ++ [exchange] ∧ exchange.reply = .panic payload := by
  obtain ⟨before, exchange, rfl, stops⟩ :=
    byReply state exchanges _ final trace (.panic payload) rfl trivial
  exact ⟨before, exchange, rfl, Exchange.reply_of_stop?_panic stops⟩

end Run

namespace Session

theorem stopsByReply_counted
    {α : Type} {load : Step α} (inner : Run.StopsByReply load) :
    Run.StopsByReply (counted load) := by
  intro session exchanges result final trace
  obtain ⟨left, path, -⟩ := trace_counted_iff.mp trace
  exact inner _ _ _ _ path

theorem stopsByReply_step (room : Nat) (form : Value) : Run.StopsByReply (step room form) :=
  Run.stopsByReply_closed.step stopsByReply_counted room form

/-- A load that no panic breaks off counts down what it has counted up. -/
theorem loading_of_loadFile
    {room : Nat} {operands : List Value} {session final : Session}
    {exchanges : List Exchange} {result : Except Stop Value}
    (trace : Trace (loadFile (step room) operands) session exchanges result final)
    (intact : ∀ payload, result ≠ .error (.panic payload)) :
    final.loading = session.loading := by
  rw [loadFile_eq] at trace
  rcases Run.trace_bind_iff.mp trace with
    ⟨forms, middle, front, back, rfl, first, later⟩ | ⟨stop, rfl, first⟩
  · obtain ⟨definitions, ranAll⟩ := RanAll.of_trace Ran.of_trace later
    exact (ranAll.loading_eq intact).trans (loading_of_loadedForms first)
  · exact loading_of_loadedForms first

/-- A form with an internal fault for its outcome ends with a reply that breaks it. -/
theorem breaks_of_runForm
    {session next : Session} {form : Value} {exchanges : List Exchange} {f : Fault}
    (path : Path (session.runForm form) exchanges (.fault f, next))
    (internal : f.kind = "Internal") :
    ∃ before exchange, exchanges = before ++ [exchange] ∧ exchange.Breaks := by
  obtain ⟨result, trace, same⟩ := path_runForm_iff.mp path
  have byReply := stopsByReply_step _ form _ _ _ _ trace
  rcases result with (cause | payload) | v
  · cases same
    obtain ⟨before, exchange, rfl, stops⟩ :=
      byReply _ rfl (Fault.kind_eq_internal_iff.mp internal)
    exact ⟨before, exchange, rfl,
      Exchange.breaks_of_stop? stops (Fault.kind_eq_internal_iff.mp internal)⟩
  · obtain ⟨before, exchange, rfl, stops⟩ := byReply _ rfl trivial
    exact ⟨before, exchange, rfl, Exchange.breaks_of_stop? stops trivial⟩
  · cases same

/-- Forms that run one after the other, each with its exchanges and its outcome. -/
inductive Steps : Session → List Value → List (List Exchange × Outcome) → Session → Prop where
  | nil (session : Session) : Steps session [] [] session
  | cons {session middle final : Session} {form : Value} {forms : List Value}
      {exchanges : List Exchange} {outcome : Outcome}
      {later : List (List Exchange × Outcome)} :
      Path (session.runForm form) exchanges (outcome, middle) →
      Steps middle forms later final →
      Steps session (form :: forms) ((exchanges, outcome) :: later) final

theorem exists_steps_of_runForms
    {session final : Session} {forms : List Value} {exchanges : List Exchange}
    {outcomes : List Outcome}
    (path : Path (session.runForms forms) exchanges (outcomes, final)) :
    ∃ steps, Steps session forms steps final ∧
      exchanges = steps.flatMap (·.1) ∧ outcomes = steps.map (·.2) := by
  induction forms generalizing session exchanges outcomes with
  | nil =>
      cases path
      exact ⟨[], .nil _, rfl, rfl⟩
  | cons form forms induction =>
      obtain ⟨outcome, others, middle, front, back, rfl, rfl, first, rest⟩ :=
        path_runForms_cons path
      obtain ⟨steps, ran, rfl, rfl⟩ := induction rest
      exact ⟨(front, outcome) :: steps, .cons first ran, rfl, rfl⟩

theorem Steps.breaks
    {first final : Session} {forms : List Value}
    {steps : List (List Exchange × Outcome)} (ran : Steps first forms steps final) :
    ∀ step ∈ steps, ∀ f, step.2 = .fault f → f.kind = "Internal" →
      ∃ before exchange, step.1 = before ++ [exchange] ∧ exchange.Breaks := by
  induction ran with
  | nil => nofun
  | cons path _ induction =>
      intro current member f same internal
      rcases List.mem_cons.mp member with rfl | later
      · cases same
        exact breaks_of_runForm path internal
      · exact induction current later f same internal

/-- Nothing in the language panics by itself.  A primitive gets as many arguments as it
accepts and reaches past none of them, a load counts down what it has counted up, and the
offsets of lexemes and of errors are places in the text.  So a step has an internal fault
for its outcome only if its last reply is a panic, an internal fault, or an answer to a
probe that is no boolean: of forms in every session, and of the forms of every text. -/
theorem breaks_of_internal :
    (∀ (p : Primitive) (args : List Value),
      (p.arity.accepts args.length = false →
        ∀ ctx, Eval.apply ctx (.primitive p) args =
          Run.fail (.arity p.name p.arity args.length)) ∧
      (p.arity.accepts args.length = true →
        (p = .evalValue ∧ ∃ v, args = [v]) ∨
          ∀ serial exchanges payload final,
            Trace (p.run args) serial exchanges (.error (.panic payload)) final →
              ∃ before exchange,
                exchanges = before ++ [exchange] ∧ exchange.reply = .panic payload)) ∧
    (∀ (ctx : Context) (e : Value) (serial : Nat) (exchanges : List Exchange)
      (payload : Payload) (final : Nat),
      Trace (Eval.eval ctx e) serial exchanges (.error (.panic payload)) final →
        ∃ before exchange,
          exchanges = before ++ [exchange] ∧ exchange.reply = .panic payload) ∧
    (∀ (room : Nat) (operands : List Value) (session left : Session)
      (exchanges : List Exchange) (result : Except Stop Value),
      Trace (loadFile (step room) operands) session.entered exchanges result left →
        (∀ payload, result ≠ .error (.panic payload)) →
          left.loading = session.loading + 1) ∧
    (∀ text : String,
      (∀ lexemes, Token.lex text = .ok lexemes →
        ∀ lexeme ∈ lexemes, ∃ c, Token.StandsAt text lexeme.offset c) ∧
      ∀ (error : ReadError) (offset : Nat),
        Datum.readAll text = .error (.parseFailure error) ∨
            Datum.read text = .error (.parseFailure error) →
          error.offset? = some offset → ∃ c, Token.StandsAt text offset c) ∧
    (∀ (session next : Session) (form : Value) (exchanges : List Exchange) (f : Fault),
      Path (session.runForm form) exchanges (.fault f, next) →
        f.kind = "Internal" →
          ∃ before exchange, exchanges = before ++ [exchange] ∧ exchange.Breaks) ∧
    ∀ (session final : Session) (text : String) (exchanges : List Exchange)
      (outcomes : List Outcome),
      Path (session.run text) exchanges (outcomes, final) →
        (∃ error, Datum.readAll text = .error (.parseFailure error) ∧
          exchanges = [] ∧ outcomes = [.fault (.parseFailure error)]) ∨
        ∃ forms steps, Datum.readAll text = .ok forms ∧ Steps session forms steps final ∧
          exchanges = steps.flatMap (·.1) ∧ outcomes = steps.map (·.2) ∧
          ∀ step ∈ steps, ∀ f, step.2 = .fault f → f.kind = "Internal" →
            ∃ before exchange, step.1 = before ++ [exchange] ∧ exchange.Breaks := by
  have closed := Run.stopsByReply_closed
  refine ⟨?_, ?_, ?_, ?_, ?_, ?_⟩
  · intro p args
    constructor
    · intro refused ctx
      have unaccepted : ¬p.arity.accepts args.length = true := by simp [refused]
      unfold Eval.apply
      rw [Eval.checkArity, if_neg unaccepted, Run.fail_bind]
    · intro accepted
      by_cases evaluates : p = .evalValue
      · subst evaluates
        exact .inl ⟨rfl, Arity.eq_singleton accepted⟩
      · right
        intro serial exchanges payload final trace
        exact (closed.primitive evaluates accepted).panicked trace
  · intro ctx e serial exchanges payload final trace
    exact (closed.eval ctx e).panicked trace
  · intro room operands session left exchanges result trace intact
    exact loading_of_loadFile trace intact
  · intro text
    constructor
    · intro lexemes lexed lexeme member
      exact Datum.exists_standsAt_of_lex lexed member
    · intro error offset failed named
      rcases failed with failed | failed
      · exact Datum.exists_standsAt_of_readAll named failed
      · exact Datum.exists_standsAt_of_read named failed
  · intro session next form exchanges f path internal
    exact breaks_of_runForm path internal
  · intro session final text exchanges outcomes path
    unfold run at path
    split at path
    · next forms readable =>
        obtain ⟨steps, ran, rfl, rfl⟩ := exists_steps_of_runForms path
        exact .inr ⟨forms, steps, readable, ran, rfl, rfl, ran.breaks⟩
    · next refused =>
        obtain ⟨error, rfl⟩ := Datum.eq_parseFailure_of_readAll refused
        cases path
        exact .inl ⟨error, refused, rfl, rfl⟩

/-- A list in place of the answer to a probe, and a primitive with too many arguments. -/
theorem breaks_of_internal_probe :
    let asked : Exchange := ⟨.probe "f", .value (.list [])⟩
    Path ((start .root 0).runForm (.list [.symbol "slurp", .string "f"])) [asked]
        (.fault (.badProbe "f" (.list [])), start .root 0) ∧
      asked.Breaks ∧
      Eval.apply .root (.primitive .head) [.string "a", .string "b"] =
        Run.fail (.arity "head" (.exactly 1) 2) := by
  intro asked
  have path : Path ((start .root 0).runForm (.list [.symbol "slurp", .string "f"])) [asked]
      (.fault (.badProbe "f" (.list [])), start .root 0) := by
    with_unfolding_all exact .request _ _ (.done _)
  obtain ⟨arguments, -, -, -, forms, -⟩ := breaks_of_internal
  obtain ⟨before, exchange, same, breaks⟩ := forms _ _ _ _ _ path rfl
  refine ⟨path, ?_, (arguments .head _).1 rfl .root⟩
  cases before with
  | nil =>
      cases same
      exact breaks
  | cons first before => simp at same

end Session

end EffectLisp
