import EffectLisp.Proofs.Session.Moments

/-!
# A step as its moments

What is still to run at a moment is a computation.  It goes on as the next moments tell,
and the moments come to an end, so its paths are the ways from the moment to a last one.
What a form of a session does is therefore what the moments of its step lead to.
-/

namespace EffectLisp.Session

open Interaction (Path)
open Run (Trace)

/-- Run what is still to run of the loads in progress, innermost first.  Each load but
one that a panic broke off is left. -/
def unwind (limit : Nat) :
    List (List Value) → Except Stop Value × Session →
      Interaction (Except Stop Value × Session)
  | [], pair => .done pair
  | forms :: loads, (result, session) =>
      let remaining :=
        match result with
        | .ok v => stepsFrom (step (limit - (loads.length + 1))) v forms session
        | .error stop => .done (.error stop, session)
      remaining.bind fun pair => unwind limit loads (pair.1, leave pair.1 pair.2)

/-- What a step still does from a moment on. -/
def Moment.rest (limit : Nat) : Moment → Interaction (Except Stop Value × Session)
  | ⟨session, loads, .form form⟩ =>
      (step (limit - loads.length) form session).bind (unwind limit loads)
  | ⟨session, loads, .file operands⟩ =>
      (loadedForms operands session).bind fun
        | (.ok forms, session) => unwind limit (forms :: loads) (.ok .unit, session)
        | (.error stop, session) => unwind limit ([] :: loads) (.error stop, session)
  | ⟨session, loads, .ended result⟩ => unwind limit loads (result, session)

variable {limit : Nat}

theorem unwind_panic (loads : List (List Value)) (payload : Payload) (session : Session) :
    unwind limit loads (.error (.panic payload), session) =
      .done (.error (.panic payload), session) := by
  induction loads with
  | nil => rfl
  | cons forms loads induction => exact induction

section Rest

variable {session : Session} {loads : List (List Value)} {form : Value}
  {operands : List Value}

theorem rest_of_enter
    (kind : TopLevelForm.ofValue form = .load operands)
    (counted : Moment.Counted limit ⟨session, loads, .form form⟩)
    (below : loads.length < limit) :
    Moment.rest limit ⟨session, loads, .form form⟩ =
      (Moment.entered ⟨session, loads, .form form⟩ operands).rest limit := by
  have room : limit - loads.length = limit - (loads.length + 1) + 1 := by omega
  have entering : session.loading < session.context.maxDepth := by
    rw [counted.limit, counted.loading]
    exact below
  rw [Moment.rest, room, step_of_load kind entering, counted_eq, Run.bind_eq,
    Interaction.bind_assoc, Interaction.bind_assoc]
  refine congrArg (Interaction.bind _) (funext fun pair => ?_)
  obtain ⟨stop | forms, middle⟩ := pair <;> rfl

theorem rest_of_refuse
    (kind : TopLevelForm.ofValue form = .load operands)
    (counted : Moment.Counted limit ⟨session, loads, .form form⟩)
    (full : loads.length = limit) :
    Moment.rest limit ⟨session, loads, .form form⟩ =
      (Moment.refused ⟨session, loads, .form form⟩).rest limit := by
  have refused : session.context.maxDepth ≤ session.loading := by
    rw [counted.limit, counted.loading]
    exact Nat.le_of_eq full.symm
  rw [Moment.rest, step_of_refused kind (.inl refused)]
  rfl

theorem rest_of_goOn {v : Value} {forms : List Value} :
    Moment.rest limit ⟨session, (form :: forms) :: loads, .ended (.ok v)⟩ =
      Moment.rest limit ⟨session, forms :: loads, .form form⟩ := by
  change ((step _ form >>= fun v => stepsFrom _ v forms) session).bind _ = _
  rw [Run.bind_eq, Interaction.bind_assoc]
  refine congrArg (Interaction.bind _) (funext fun pair => ?_)
  obtain ⟨stop | v, middle⟩ := pair <;> rfl

end Rest

theorem Moment.rest_last
    {session : Session} {loads : List (List Value)} {result : Except Stop Value}
    (ended : loads = [] ∨ ∃ payload, result = .error (.panic payload)) :
    Moment.rest limit ⟨session, loads, .ended result⟩ = .done (result, session) := by
  rcases ended with rfl | ⟨payload, rfl⟩
  · rfl
  · exact unwind_panic loads payload session

/-- The step goes on with some computation, and each of its paths leads to a next moment
from which it goes on. -/
def Moment.Unfolds (limit : Nat) (moment : Moment) : Prop :=
  ∃ (γ : Type) (first : Interaction γ) (following : γ → Moment),
    moment.rest limit = first.bind (fun c => (following c).rest limit) ∧
      ∀ exchanges later,
        Next moment exchanges later ↔ ∃ c, Path first exchanges c ∧ later = following c

theorem Moment.unfolds_of_silent
    {moment following : Moment} (next : Next moment [] following)
    (same : moment.rest limit = following.rest limit)
    (only : ∀ {exchanges later},
      Next moment exchanges later → exchanges = [] ∧ later = following) :
    moment.Unfolds limit := by
  refine ⟨Unit, .done (), fun _ => following, same, ?_⟩
  intro exchanges later
  constructor
  · intro given
    obtain ⟨rfl, rfl⟩ := only given
    exact ⟨(), .done (), rfl⟩
  · rintro ⟨_, path, rfl⟩
    obtain ⟨rfl, -⟩ := Interaction.path_done_iff.mp path
    exact next

theorem Moment.unfolds_form
    {session : Session} {loads : List (List Value)} {form : Value}
    (counted : Moment.Counted limit ⟨session, loads, .form form⟩) :
    Moment.Unfolds limit ⟨session, loads, .form form⟩ := by
  cases kind : TopLevelForm.ofValue form with
  | expression e =>
      refine ⟨_, inContext (fun context => Eval.eval context e) session,
        fun pair => ⟨pair.2, loads, .ended pair.1⟩, ?_, ?_⟩
      · rw [Moment.rest, step_of_expression kind]
        rfl
      · intro exchanges later
        rw [next_expression_iff kind, Prod.exists]
        rfl
  | define operands =>
      refine ⟨_, define operands session, fun pair => ⟨pair.2, loads, .ended pair.1⟩,
        ?_, ?_⟩
      · rw [Moment.rest, step_of_define kind]
        rfl
      · intro exchanges later
        rw [next_define_iff kind, Prod.exists]
        rfl
  | load operands =>
      have within : loads.length ≤ limit := counted.within
      rcases Nat.lt_or_eq_of_le within with below | full
      · have next := (counted.next_load_iff rfl kind).mpr ⟨rfl, .inr ⟨below, rfl⟩⟩
        refine Moment.unfolds_of_silent next (rest_of_enter kind counted below) ?_
        intro exchanges later given
        obtain ⟨none, ⟨full, -⟩ | ⟨-, entered⟩⟩ := (counted.next_load_iff rfl kind).mp given
        · exact absurd full (Nat.ne_of_lt below)
        · exact ⟨none, entered⟩
      · have next := (counted.next_load_iff rfl kind).mpr ⟨rfl, .inl ⟨full, rfl⟩⟩
        refine Moment.unfolds_of_silent next (rest_of_refuse kind counted full) ?_
        intro exchanges later given
        obtain ⟨none, ⟨-, refused⟩ | ⟨below, -⟩⟩ := (counted.next_load_iff rfl kind).mp given
        · exact ⟨none, refused⟩
        · exact absurd full (Nat.ne_of_lt below)

/-- Nothing follows upon the last moment of a step. -/
theorem Moment.unfolds_or_last
    {moment : Moment} (counted : moment.Counted limit) :
    moment.Unfolds limit ∨
      ∃ session loads result,
        moment = ⟨session, loads, .ended result⟩ ∧
          (loads = [] ∨ ∃ payload, result = .error (.panic payload)) := by
  obtain ⟨session, loads, doing⟩ := moment
  match doing with
  | .form form => exact .inl (Moment.unfolds_form counted)
  | .file operands =>
      refine .inl ⟨_, loadedForms operands session,
        fun pair => Moment.opened loads pair.1 pair.2, ?_, ?_⟩
      · refine congrArg (Interaction.bind _) (funext fun pair => ?_)
        obtain ⟨stop | forms, final⟩ := pair <;> rfl
      · intro exchanges later
        rw [next_file_iff, Prod.exists]
        rfl
  | .ended result =>
      match loads, result with
      | [], result => exact .inr ⟨session, [], result, rfl, .inl rfl⟩
      | loads, .error (.panic payload) =>
          exact .inr ⟨session, loads, _, rfl, .inr ⟨payload, rfl⟩⟩
      | forms :: loads, .error (.fault f) =>
          refine .inl (Moment.unfolds_of_silent .abandon rfl ?_)
          rintro _ _ ⟨⟩
          exact ⟨rfl, rfl⟩
      | [] :: loads, .ok v =>
          refine .inl (Moment.unfolds_of_silent .leave rfl ?_)
          rintro _ _ ⟨⟩
          exact ⟨rfl, rfl⟩
      | (form :: forms) :: loads, .ok v =>
          refine .inl (Moment.unfolds_of_silent .goOn rest_of_goOn ?_)
          rintro _ _ ⟨⟩
          exact ⟨rfl, rfl⟩

theorem path_of_leads
    {moment last : Moment} {exchanges later : List Exchange}
    {pair : Except Stop Value × Session} (leads : Leads moment exchanges last)
    (counted : moment.Counted limit) (path : Path (last.rest limit) later pair) :
    Path (moment.rest limit) (exchanges ++ later) pair := by
  induction leads with
  | here => exact path
  | @next moment following last front back next _ induction =>
      have onward := induction (next.counted counted) path
      rcases Moment.unfolds_or_last counted with
        ⟨γ, first, after, rest, only⟩ | ⟨session, loads, result, rfl, ended⟩
      · obtain ⟨c, begins, rfl⟩ := (only _ _).mp next
        rw [rest, List.append_assoc]
        exact Interaction.path_bind_iff.mpr ⟨_, c, _, rfl, begins, onward⟩
      · rcases ended with rfl | ⟨payload, rfl⟩ <;> cases next

/-- The induction is on the moments to come, which are finitely many. -/
theorem exists_leads_of_path
    {moment : Moment} {exchanges : List Exchange} {result : Except Stop Value}
    {final : Session} (finite : moment.Finite) (counted : moment.Counted limit)
    (path : Path (moment.rest limit) exchanges (result, final)) :
    ∃ loads,
      Leads moment exchanges ⟨final, loads, .ended result⟩ ∧
        (loads = [] ∨ ∃ payload, result = .error (.panic payload)) := by
  induction finite generalizing exchanges with
  | intro moment _ induction =>
      rcases Moment.unfolds_or_last counted with
        ⟨γ, first, after, rest, only⟩ | ⟨session, loads, _, rfl, ended⟩
      · rw [rest] at path
        obtain ⟨front, c, back, rfl, begins, onward⟩ := Interaction.path_bind_iff.mp path
        have next := (only _ _).mpr ⟨c, begins, rfl⟩
        obtain ⟨loads, leads, ended⟩ :=
          induction _ ⟨front, next⟩ (next.counted counted) onward
        exact ⟨loads, .next next leads, ended⟩
      · rw [Moment.rest_last ended] at path
        cases path
        exact ⟨loads, .here _, ended⟩

/-- What a form does is what the moments of its step lead to. -/
theorem path_runForm_iff_leads
    {session final : Session} {form : Value} {exchanges : List Exchange}
    {outcome : Outcome} :
    Path (session.runForm form) exchanges (outcome, final) ↔
      ∃ loads result,
        Leads (.start session form) exchanges ⟨final, loads, .ended result⟩ ∧
          (loads = [] ∨ ∃ payload, result = .error (.panic payload)) ∧
          outcome = outcomeOf result := by
  have counted := Moment.counted_start session form
  have rest : (Moment.start session form).rest session.context.maxDepth =
      step session.context.maxDepth form { session with loading := 0 } :=
    Interaction.bind_pure _
  rw [path_runForm_iff]
  constructor
  · rintro ⟨result, trace, rfl⟩
    rw [Trace, ← rest] at trace
    obtain ⟨loads, leads, ended⟩ :=
      exists_leads_of_path (Moment.finite_start session form) counted trace
    exact ⟨loads, result, leads, ended, rfl⟩
  · rintro ⟨loads, result, leads, ended, rfl⟩
    refine ⟨result, ?_, rfl⟩
    rw [Trace, ← rest, ← List.append_nil exchanges]
    apply path_of_leads leads counted
    rw [Moment.rest_last ended]
    exact .done _

end EffectLisp.Session
