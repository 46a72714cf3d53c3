import EffectLisp.Proofs.Datum.Grammar
import EffectLisp.Proofs.Session.History

/-!
# The bindings of a session

Running a form changes the context of a session only by the definitions that
succeed in it, each of which binds one global name anew.  What a form leaves
behind is therefore told by its definitions alone, whatever stops it and whenever.
Who answers the requests is no part of a session, so no form can change that.
-/

namespace EffectLisp

open Interaction (Path)
open Run (Trace)

namespace Context

/-- The context with global names bound anew, one after the other. -/
def defineAll (ctx : Context) (definitions : List (String × Value)) : Context :=
  definitions.foldl (fun ctx definition => ctx.define definition.1 definition.2) ctx

@[simp] theorem defineAll_nil (ctx : Context) : ctx.defineAll [] = ctx := rfl

@[simp] theorem defineAll_singleton (ctx : Context) (name : String) (v : Value) :
    ctx.defineAll [(name, v)] = ctx.define name v := rfl

@[simp] theorem defineAll_append (ctx : Context) (front back : List (String × Value)) :
    ctx.defineAll (front ++ back) = (ctx.defineAll front).defineAll back :=
  List.foldl_append

/-- Definitions change the globals, and nothing else of a context. -/
theorem defineAll_eq (ctx : Context) (definitions : List (String × Value)) :
    ctx.defineAll definitions =
      { ctx with
        globals := definitions.foldl
          (fun globals definition => globals.insert definition.1 definition.2)
          ctx.globals } := by
  induction definitions generalizing ctx with
  | nil => rfl
  | cons definition definitions induction => exact induction (ctx.define _ _)

end Context

namespace Session

section Steps

variable {α : Type} {session final : Session} {exchanges : List Exchange}

theorem context_of_inContext
    {evaluation : Context → Evaluation α} {result : Except Stop α}
    (trace : Trace (inContext evaluation) session exchanges result final) :
    final.context = session.context := by
  obtain ⟨serial, -, rfl⟩ := trace_inContext_iff.mp trace
  rfl

theorem context_of_loadedForms
    {operands : List Value} {result : Except Stop (List Value)}
    (trace : Trace (loadedForms operands) session exchanges result final) :
    final.context = session.context := by
  rcases Run.trace_bind_iff.mp trace with
    ⟨text, middle, front, back, rfl, first, later⟩ | ⟨stop, rfl, first⟩
  · obtain ⟨rfl, rfl, rfl⟩ := Run.trace_ofExcept_iff.mp later
    exact context_of_inContext first
  · exact context_of_inContext first

end Steps

mutual

/-- A form changes the context by its definitions. -/
theorem Ran.context_eq
    {room : Nat} {session final : Session} {form : Value} {exchanges : List Exchange}
    {result : Except Stop Value} {definitions : List (String × Value)} :
    Ran room session form exchanges result final definitions →
      final.context = session.context.defineAll definitions
  | .expression _ path => context_of_inContext path
  | .defined _ path => by
      rw [bound, context_of_inContext path, Context.defineAll_singleton]
  | .undefined _ path => context_of_inContext path
  | .refused _ _ => rfl
  | .unread _ _ path => by
      rw [context_leave, context_of_loadedForms path]
      rfl
  | .loaded _ _ path ranAll => by
      rw [context_leave, ranAll.context_eq, context_of_loadedForms path]
      rfl

theorem RanAll.context_eq
    {room : Nat} {session final : Session} {exchanges : List Exchange}
    {result : Except Stop Value} {last : Value} {forms : List Value}
    {definitions : List (String × Value)} :
    RanAll room session last forms exchanges result final definitions →
      final.context = session.context.defineAll definitions
  | .nil => rfl
  | .stop ran => ran.context_eq
  | .next ran ranAll => by
      rw [ranAll.context_eq, ran.context_eq, Context.defineAll_append]

end

/-- Of forms in turn some ran to their end, and then one stopped.  Defined is what
the former defined, and what the latter did, which is nothing unless it is a load. -/
def Interrupted (room : Nat) (session : Session) (last : Value) (forms : List Value)
    (exchanges : List Exchange) (stop : Stop) (final : Session)
    (definitions : List (String × Value)) : Prop :=
  ∃ done form rest front back v middle completed started,
    forms = done ++ form :: rest ∧ exchanges = front ++ back ∧
      RanAll room session last done front (.ok v) middle completed ∧
      Ran room middle form back (.error stop) final started ∧
      definitions = completed ++ started ∧
      ((∀ operands, form ≠ .list (.symbol "load" :: operands)) → started = [])

theorem ofValue_eq_load_iff {form : Value} {operands : List Value} :
    TopLevelForm.ofValue form = .load operands ↔
      form = .list (.symbol "load" :: operands) := by
  constructor
  · intro kind
    unfold TopLevelForm.ofValue at kind
    split at kind
    · split at kind
      · cases kind
      · split at kind
        · next name _ _ named =>
            cases kind
            rw [named]
        · cases kind
    · cases kind
  · rintro rfl
    rfl

theorem ofValue_eq_define_iff {form : Value} {operands : List Value} :
    TopLevelForm.ofValue form = .define operands ↔
      form = .list (.symbol "define" :: operands) := by
  constructor
  · intro kind
    unfold TopLevelForm.ofValue at kind
    split at kind
    · split at kind
      · next name _ named =>
          cases kind
          rw [named]
      · split at kind
        · cases kind
        · cases kind
    · cases kind
  · rintro rfl
    rfl

section Forms

variable {room : Nat} {session final : Session} {form : Value}
  {exchanges : List Exchange} {result : Except Stop Value}
  {definitions : List (String × Value)}

/-- Nothing but a definition or a load defines anything. -/
theorem Ran.definitions_of_expression
    (ran : Ran room session form exchanges result final definitions)
    (noDefine : ∀ operands, form ≠ .list (.symbol "define" :: operands))
    (noLoad : ∀ operands, form ≠ .list (.symbol "load" :: operands)) :
    definitions = [] := by
  cases ran with
  | defined kind => exact absurd (ofValue_eq_define_iff.mp kind) (noDefine _)
  | loaded kind => exact absurd (ofValue_eq_load_iff.mp kind) (noLoad _)
  | _ => rfl

/-- Of the forms that stop, only a load defines anything. -/
theorem Ran.definitions_of_error
    {stop : Stop} (ran : Ran room session form exchanges (.error stop) final definitions)
    (noLoad : ∀ operands, form ≠ .list (.symbol "load" :: operands)) :
    definitions = [] := by
  cases ran with
  | loaded kind => exact absurd (ofValue_eq_load_iff.mp kind) (noLoad _)
  | _ => rfl

theorem RanAll.interrupted
    {last : Value} {forms : List Value} {stop : Stop}
    (ranAll : RanAll room session last forms exchanges (.error stop) final definitions) :
    Interrupted room session last forms exchanges stop final definitions := by
  induction forms generalizing session last exchanges definitions with
  | nil => cases ranAll
  | cons form forms induction =>
      cases ranAll with
      | stop ran =>
          exact ⟨[], form, forms, [], exchanges, last, session, [], definitions, rfl,
            rfl, .nil, ran, rfl, ran.definitions_of_error⟩
      | next ran others =>
          obtain ⟨done, failing, rest, front, back, v, middle, completed, started, rfl,
            rfl, ranDone, stopped, rfl, nothing⟩ := induction others
          exact ⟨form :: done, failing, rest, _ ++ front, back, v, middle,
            _ ++ completed, started, rfl, by simp, .next ran ranDone, stopped, by simp,
            nothing⟩

/-- A load that stops does so before the first form of its file has run, or at one
of the forms. -/
theorem Ran.interrupted
    {operands : List Value} {stop : Stop}
    (ran : Ran room session (.list (.symbol "load" :: operands)) exchanges (.error stop)
      final definitions) :
    definitions = [] ∨
      ∃ fewer forms start front back last,
        exchanges = front ++ back ∧
          Trace (loadedForms operands) session.entered front (.ok forms) start ∧
          Interrupted fewer start .unit forms back stop last definitions := by
  cases ran with
  | loaded kind _ path ranAll =>
      cases ofValue_eq_load_iff.mp kind
      exact .inr ⟨_, _, _, _, _, _, rfl, path, ranAll.interrupted⟩
  | _ => exact .inl rfl

end Forms

/-- The sessions that forms and texts lead to, from a fresh one with the limit. -/
inductive Reachable (maxDepth : Nat) : Session → Prop where
  | start (serial : Nat) :
      Reachable maxDepth (.start (Context.root.withMaxDepth maxDepth) serial)
  | form {session next : Session} {form : Value} {exchanges : List Exchange}
      {outcome : Outcome} :
      Reachable maxDepth session →
      Path (session.runForm form) exchanges (outcome, next) →
      Reachable maxDepth next
  | source {session next : Session} {text : String} {exchanges : List Exchange}
      {outcomes : List Outcome} :
      Reachable maxDepth session →
      Path (session.run text) exchanges (outcomes, next) →
      Reachable maxDepth next

section Reachable

variable {session next : Session} {exchanges : List Exchange}

theorem exists_ran_of_runForm
    {form : Value} {outcome : Outcome}
    (path : Path (session.runForm form) exchanges (outcome, next)) :
    ∃ result definitions,
      Ran session.context.maxDepth { session with loading := 0 } form exchanges result
          next definitions ∧
        outcome = outcomeOf result ∧
        next.context = session.context.defineAll definitions := by
  obtain ⟨result, trace, rfl⟩ := path_runForm_iff.mp path
  obtain ⟨definitions, ran⟩ := Ran.of_trace trace
  exact ⟨result, definitions, ran, rfl, ran.context_eq⟩

theorem exists_definitions_of_runForms
    {forms : List Value} {outcomes : List Outcome}
    (path : Path (session.runForms forms) exchanges (outcomes, next)) :
    ∃ definitions, next.context = session.context.defineAll definitions := by
  induction forms generalizing session exchanges outcomes with
  | nil =>
      cases path
      exact ⟨[], rfl⟩
  | cons form forms induction =>
      obtain ⟨outcome, others, middle, front, back, rfl, rfl, first, rest⟩ :=
        path_runForms_cons path
      obtain ⟨result, definitions, -, -, changed⟩ := exists_ran_of_runForm first
      obtain ⟨more, after⟩ := induction rest
      exact ⟨definitions ++ more, by rw [after, changed, Context.defineAll_append]⟩

theorem exists_definitions_of_run
    {text : String} {outcomes : List Outcome}
    (path : Path (session.run text) exchanges (outcomes, next)) :
    ∃ definitions, next.context = session.context.defineAll definitions := by
  unfold run at path
  split at path
  · exact exists_definitions_of_runForms path
  · cases path
    exact ⟨[], rfl⟩

theorem Reachable.exists_definitions
    {maxDepth : Nat} (reachable : Reachable maxDepth session) :
    ∃ definitions,
      session.context = (Context.root.withMaxDepth maxDepth).defineAll definitions := by
  induction reachable with
  | start serial => exact ⟨[], rfl⟩
  | form _ path induction =>
      obtain ⟨definitions, before⟩ := induction
      obtain ⟨result, more, -, -, changed⟩ := exists_ran_of_runForm path
      exact ⟨definitions ++ more, by rw [changed, before, Context.defineAll_append]⟩
  | source _ path induction =>
      obtain ⟨definitions, before⟩ := induction
      obtain ⟨more, changed⟩ := exists_definitions_of_run path
      exact ⟨definitions ++ more, by rw [changed, before, Context.defineAll_append]⟩

/-- The context of a session is at depth 0, without local frames and with its first
limit.  A form changes its globals by the definitions that succeed while it runs,
in order: those of the form itself, or of the forms of files.  So nothing is changed
by an expression, nor by what fails but for a load, and a load that fails keeps what
was defined before. -/
theorem bindings_of_reachable
    {maxDepth : Nat} (reachable : Reachable maxDepth session) :
    (session.context.depth = 0 ∧ session.context.scope = .empty ∧
        session.context.maxDepth = maxDepth) ∧
      ∀ form exchanges outcome next,
        Path (session.runForm form) exchanges (outcome, next) →
          ∃ result definitions,
            Ran maxDepth { session with loading := 0 } form exchanges result next
                definitions ∧
              outcome = outcomeOf result ∧
              next.context =
                { session.context with
                  globals := definitions.foldl
                    (fun globals definition => globals.insert definition.1 definition.2)
                    session.context.globals } ∧
              ((∀ operands, form ≠ .list (.symbol "define" :: operands)) →
                (∀ operands, form ≠ .list (.symbol "load" :: operands)) →
                ∀ name, next.context.find? name = session.context.find? name) ∧
              ((∀ operands, form ≠ .list (.symbol "load" :: operands)) →
                outcome.isFault = true →
                ∀ name, next.context.find? name = session.context.find? name) ∧
              (∀ operands stop, form = .list (.symbol "load" :: operands) →
                result = .error stop →
                definitions = [] ∨
                  ∃ room forms start front back last,
                    exchanges = front ++ back ∧
                      Trace (loadedForms operands)
                        { session with loading := 1 } front (.ok forms) start ∧
                      Interrupted room start .unit forms back stop last definitions) := by
  obtain ⟨earlier, built⟩ := reachable.exists_definitions
  rw [Context.defineAll_eq] at built
  have top : session.context.depth = 0 ∧ session.context.scope = .empty ∧
      session.context.maxDepth = maxDepth := by
    rw [built]
    exact ⟨rfl, rfl, rfl⟩
  refine ⟨top, ?_⟩
  intro form exchanges outcome next path
  obtain ⟨result, definitions, ran, rfl, changed⟩ := exists_ran_of_runForm path
  have unchanged (none : definitions = []) (name : String) :
      next.context.find? name = session.context.find? name := by
    rw [changed, none, Context.defineAll_nil]
  refine ⟨result, definitions, top.2.2 ▸ ran, rfl, ?_, ?_, ?_, ?_⟩
  · rw [changed, Context.defineAll_eq]
  · intro noDefine noLoad
    exact unchanged (ran.definitions_of_expression noDefine noLoad)
  · intro noLoad failed
    cases result with
    | ok v => cases failed
    | error stop => exact unchanged (ran.definitions_of_error noLoad)
  · rintro operands stop rfl rfl
    exact ran.interrupted

/-- A load of a file that defines a name, and then uses one that nothing defines. -/
theorem bindings_of_reachable_load :
    ∃ next result definitions,
      Path
          ((start (Context.root.withMaxDepth 3) 0).runForm
            (.list [.symbol "load", .string "f"]))
          [⟨.probe "f", .value (.bool true)⟩,
            ⟨.read "f", .value (.string "(define a \"x\") b")⟩]
          (.fault (.unbound "b"), next) ∧
        Ran 3 (start (Context.root.withMaxDepth 3) 0)
          (.list [.symbol "load", .string "f"])
          [⟨.probe "f", .value (.bool true)⟩,
            ⟨.read "f", .value (.string "(define a \"x\") b")⟩]
          result next definitions ∧
        next.context.find? "a" = some (.string "x") := by
  have reads : Datum.readAll "(define a \"x\") b" =
      .ok [.list [.symbol "define", .symbol "a", .string "x"], .symbol "b"] :=
    Datum.readAll_eq_ok_iff.mpr
      ⟨[⟨.opening, 0⟩, ⟨.atom "define", 1⟩, ⟨.atom "a", 8⟩, ⟨.literal "x", 10⟩,
          ⟨.closing, 13⟩, ⟨.atom "b", 15⟩],
        eq_ok_of_toOption (by decide +kernel), Datum.parseAll_eq_ok_iff.mp rfl⟩
  have asks : Trace (inContext fun context => fileText context [.string "f"])
      (start (Context.root.withMaxDepth 3) 0).entered
      [⟨.probe "f", .value (.bool true)⟩,
        ⟨.read "f", .value (.string "(define a \"x\") b")⟩]
      (.ok "(define a \"x\") b") (start (Context.root.withMaxDepth 3) 0).entered := by
    refine trace_inContext_iff.mpr ⟨0, ?_, rfl⟩
    with_unfolding_all exact .request _ _ (.request _ _ (.done _))
  have defines : Ran 2 (start (Context.root.withMaxDepth 3) 0).entered
      (.list [.symbol "define", .symbol "a", .string "x"]) [] (.ok (.symbol "a"))
      ((start (Context.root.withMaxDepth 3) 0).entered.bound "a" (.string "x"))
      [("a", .string "x")] := by
    refine .defined rfl (trace_inContext_iff.mpr ⟨0, ?_, rfl⟩)
    with_unfolding_all exact .done _
  have fails : Ran 2
      ((start (Context.root.withMaxDepth 3) 0).entered.bound "a" (.string "x"))
      (.symbol "b") [] (.error (.fault (.unbound "b")))
      ((start (Context.root.withMaxDepth 3) 0).entered.bound "a" (.string "x")) [] := by
    refine .expression rfl (trace_inContext_iff.mpr ⟨0, ?_, rfl⟩)
    with_unfolding_all exact .done _
  have loads : Trace (loadedForms [.string "f"])
      (start (Context.root.withMaxDepth 3) 0).entered _ _ _ :=
    Run.trace_bind_iff.mpr (.inl ⟨_, _, _, [], rfl, asks,
      Run.trace_ofExcept_iff.mpr ⟨rfl, by rw [reads], rfl⟩⟩)
  have ran : Ran 3 (start (Context.root.withMaxDepth 3) 0)
      (.list [.symbol "load", .string "f"]) _ _ _ _ :=
    .loaded rfl (by decide) loads (.next defines (.stop fails))
  have path : Path ((start (Context.root.withMaxDepth 3) 0).runForm _) _ _ :=
    path_runForm_iff.mpr ⟨_, ran.trace, rfl⟩
  obtain ⟨result, definitions, described, -⟩ :=
    (bindings_of_reachable (.start 0)).2 _ _ _ _ path
  exact ⟨_, result, definitions, path, described, rfl⟩

end Reachable

end Session

end EffectLisp
