import EffectLisp.Proofs.Session.Bindings

/-!
# The moments of a step

While a step runs the session passes through moments.  At each of them a form is about
to be run, the file of a load that was entered is about to be read, or something has
ended.  `Next` tells what follows upon a moment by the counter of the session alone: the
room that a step is given for loads within each other plays no part in it.

At every moment the counter is the number of the loads in progress, so a load is refused
exactly when as many as the limit are in progress, and no step passes through moments
for ever.
-/

namespace EffectLisp.Session

open Run (Trace)

inductive Doing where
  | form (form : Value)
  | file (operands : List Value)
  | ended (result : Except Stop Value)

/-- A session while a step runs.  For each load whose file has been read, innermost
first, there are the forms still to run. -/
structure Moment where
  session : Session
  loads : List (List Value)
  doing : Doing

namespace Moment

/-- The moment at which a form of the session starts to run. -/
def start (session : Session) (form : Value) : Moment :=
  ⟨{ session with loading := 0 }, [], .form form⟩

/-- The loads in progress: those whose file has been read, and the one whose file is
being read. -/
def inProgress (moment : Moment) : Nat :=
  match moment.doing with
  | .file _ => moment.loads.length + 1
  | _ => moment.loads.length

/-- The moment after a load is refused. -/
def refused (moment : Moment) : Moment :=
  ⟨moment.session, moment.loads,
    .ended (.error (.fault (.recursionLimit moment.session.context.maxDepth)))⟩

/-- The moment after a load is entered. -/
def entered (moment : Moment) (operands : List Value) : Moment :=
  ⟨moment.session.entered, moment.loads, .file operands⟩

/-- The moment after the file of a load is read, or is found not to be readable. -/
def opened (loads : List (List Value)) : Except Stop (List Value) → Session → Moment
  | .ok forms, session => ⟨session, forms :: loads, .ended (.ok .unit)⟩
  | .error stop, session => ⟨session, [] :: loads, .ended (.error stop)⟩

end Moment

/-- The session with one load fewer in progress. -/
def left (session : Session) : Session :=
  { session with loading := session.loading - 1 }

/-- What follows upon a moment, and the exchanges in between.  Nothing follows upon a
panic: it breaks off the step. -/
inductive Next : Moment → List Exchange → Moment → Prop where
  | expression {session final : Session} {loads : List (List Value)} {form e : Value}
      {exchanges : List Exchange} {result : Except Stop Value} :
      TopLevelForm.ofValue form = .expression e →
      Trace (inContext fun context => Eval.eval context e) session exchanges result
        final →
      Next ⟨session, loads, .form form⟩ exchanges ⟨final, loads, .ended result⟩
  | define {session final : Session} {loads : List (List Value)} {form : Value}
      {operands : List Value} {exchanges : List Exchange} {result : Except Stop Value} :
      TopLevelForm.ofValue form = .define operands →
      Trace (define operands) session exchanges result final →
      Next ⟨session, loads, .form form⟩ exchanges ⟨final, loads, .ended result⟩
  | refuse {session : Session} {loads : List (List Value)} {form : Value}
      {operands : List Value} :
      TopLevelForm.ofValue form = .load operands →
      session.context.maxDepth ≤ session.loading →
      Next ⟨session, loads, .form form⟩ []
        (Moment.refused ⟨session, loads, .form form⟩)
  | enter {session : Session} {loads : List (List Value)} {form : Value}
      {operands : List Value} :
      TopLevelForm.ofValue form = .load operands →
      session.loading < session.context.maxDepth →
      Next ⟨session, loads, .form form⟩ []
        (Moment.entered ⟨session, loads, .form form⟩ operands)
  | read {session final : Session} {loads : List (List Value)}
      {operands : List Value} {exchanges : List Exchange}
      {result : Except Stop (List Value)} :
      Trace (loadedForms operands) session exchanges result final →
      Next ⟨session, loads, .file operands⟩ exchanges
        (Moment.opened loads result final)
  | goOn {session : Session} {loads : List (List Value)} {form v : Value}
      {forms : List Value} :
      Next ⟨session, (form :: forms) :: loads, .ended (.ok v)⟩ []
        ⟨session, forms :: loads, .form form⟩
  | leave {session : Session} {loads : List (List Value)} {v : Value} :
      Next ⟨session, [] :: loads, .ended (.ok v)⟩ []
        ⟨session.left, loads, .ended (.ok v)⟩
  | abandon {session : Session} {loads : List (List Value)} {forms : List Value}
      {f : Fault} :
      Next ⟨session, forms :: loads, .ended (.error (.fault f))⟩ []
        ⟨session.left, loads, .ended (.error (.fault f))⟩

/-- The moments that one leads to, and the exchanges on the way. -/
inductive Leads : Moment → List Exchange → Moment → Prop where
  | here (moment : Moment) : Leads moment [] moment
  | next {moment following last : Moment} {front back : List Exchange} :
      Next moment front following →
      Leads following back last →
      Leads moment (front ++ back) last

section Counter

variable {session final : Session} {exchanges : List Exchange}

theorem loading_of_inContext
    {α : Type} {evaluation : Context → Evaluation α} {result : Except Stop α}
    (trace : Trace (inContext evaluation) session exchanges result final) :
    final.loading = session.loading := by
  obtain ⟨serial, -, rfl⟩ := trace_inContext_iff.mp trace
  rfl

theorem loading_of_define
    {operands : List Value} {result : Except Stop Value}
    (trace : Trace (define operands) session exchanges result final) :
    final.loading = session.loading := by
  rcases trace_define_iff.mp trace with ⟨name, v, middle, path, -, rfl⟩ | ⟨stop, -, path⟩
  · exact (loading_of_inContext path :)
  · exact loading_of_inContext path

theorem maxDepth_of_define
    {operands : List Value} {result : Except Stop Value}
    (trace : Trace (define operands) session exchanges result final) :
    final.context.maxDepth = session.context.maxDepth := by
  rcases trace_define_iff.mp trace with ⟨name, v, middle, path, -, rfl⟩ | ⟨stop, -, path⟩
  · exact (congrArg Context.maxDepth (context_of_inContext path) :)
  · exact congrArg Context.maxDepth (context_of_inContext path)

theorem loading_of_loadedForms
    {operands : List Value} {result : Except Stop (List Value)}
    (trace : Trace (loadedForms operands) session exchanges result final) :
    final.loading = session.loading := by
  rcases Run.trace_bind_iff.mp trace with
    ⟨text, middle, front, back, rfl, first, later⟩ | ⟨stop, rfl, first⟩
  · obtain ⟨rfl, rfl, rfl⟩ := Run.trace_ofExcept_iff.mp later
    exact loading_of_inContext first
  · exact loading_of_inContext first

theorem loading_leave
    {α : Type} {result : Except Stop α} (intact : ∀ payload, result ≠ .error (.panic payload))
    (session : Session) : (Session.leave result session).loading = session.loading - 1 := by
  unfold Session.leave
  split
  · exact absurd rfl (intact _)
  · rfl

mutual

/-- A form that no panic breaks off has left the loads that it entered. -/
theorem Ran.loading_eq
    {room : Nat} {session final : Session} {form : Value} {exchanges : List Exchange}
    {result : Except Stop Value} {definitions : List (String × Value)}
    (intact : ∀ payload, result ≠ .error (.panic payload)) :
    Ran room session form exchanges result final definitions →
      final.loading = session.loading
  | .expression _ trace => loading_of_inContext trace
  | .defined _ trace => (loading_of_inContext trace :)
  | .undefined _ trace => loading_of_inContext trace
  | .refused _ _ => rfl
  | .unread _ _ trace => by
      rw [loading_leave intact, loading_of_loadedForms trace]
      rfl
  | .loaded _ _ trace ranAll => by
      rw [loading_leave intact, ranAll.loading_eq intact, loading_of_loadedForms trace]
      rfl

theorem RanAll.loading_eq
    {room : Nat} {session final : Session} {exchanges : List Exchange}
    {result : Except Stop Value} {last : Value} {forms : List Value}
    {definitions : List (String × Value)}
    (intact : ∀ payload, result ≠ .error (.panic payload)) :
    RanAll room session last forms exchanges result final definitions →
      final.loading = session.loading
  | .nil => rfl
  | .stop ran => ran.loading_eq intact
  | .next ran ranAll => by rw [ranAll.loading_eq intact, ran.loading_eq fun _ ended => by cases ended]

end

end Counter

/-- The counter of the session is the number of the loads in progress, which are at most
as many as the limit. -/
structure Moment.Counted (limit : Nat) (moment : Moment) : Prop where
  loading : moment.session.loading = moment.inProgress
  within : moment.inProgress ≤ limit
  limit : moment.session.context.maxDepth = limit

section Moments

variable {limit : Nat} {moment later : Moment} {exchanges : List Exchange}

theorem Moment.counted_start (session : Session) (form : Value) :
    (Moment.start session form).Counted session.context.maxDepth :=
  ⟨rfl, Nat.zero_le _, rfl⟩

theorem Next.counted
    (next : Next moment exchanges later) (counted : moment.Counted limit) :
    later.Counted limit := by
  obtain ⟨loading, within, limited⟩ := counted
  cases next with
  | expression kind trace =>
      exact ⟨(loading_of_inContext trace).trans loading, within,
        (congrArg Context.maxDepth (context_of_inContext trace)).trans limited⟩
  | define kind trace =>
      exact ⟨(loading_of_define trace).trans loading, within,
        (maxDepth_of_define trace).trans limited⟩
  | refuse => exact ⟨loading, within, limited⟩
  | enter kind below =>
      refine ⟨congrArg (· + 1) loading, ?_, limited⟩
      rw [loading, limited] at below
      exact below
  | @read _ _ _ _ _ result trace =>
      have counter := (loading_of_loadedForms trace).trans loading
      have same :=
        (congrArg Context.maxDepth (context_of_loadedForms trace)).trans limited
      cases result with
      | ok forms => exact ⟨counter, within, same⟩
      | error stop => exact ⟨counter, within, same⟩
  | goOn => exact ⟨loading, within, limited⟩
  | leave => exact ⟨congrArg (· - 1) loading, Nat.le_of_succ_le within, limited⟩
  | abandon => exact ⟨congrArg (· - 1) loading, Nat.le_of_succ_le within, limited⟩

theorem Leads.counted
    (leads : Leads moment exchanges later) (counted : moment.Counted limit) :
    later.Counted limit := by
  induction leads with
  | here => exact counted
  | next next _ induction => exact induction (next.counted counted)

section Forms

variable {session : Session} {loads : List (List Value)} {form : Value}

theorem next_expression_iff
    {e : Value} (kind : TopLevelForm.ofValue form = .expression e) :
    Next ⟨session, loads, .form form⟩ exchanges later ↔
      ∃ result final,
        Trace (inContext fun context => Eval.eval context e) session exchanges result
            final ∧
          later = ⟨final, loads, .ended result⟩ := by
  constructor
  · intro next
    cases next with
    | expression same trace =>
        cases kind.symm.trans same
        exact ⟨_, _, trace, rfl⟩
    | define other => cases kind.symm.trans other
    | refuse other => cases kind.symm.trans other
    | enter other => cases kind.symm.trans other
  · rintro ⟨result, final, trace, rfl⟩
    exact .expression kind trace

theorem next_define_iff
    {operands : List Value} (kind : TopLevelForm.ofValue form = .define operands) :
    Next ⟨session, loads, .form form⟩ exchanges later ↔
      ∃ result final,
        Trace (define operands) session exchanges result final ∧
          later = ⟨final, loads, .ended result⟩ := by
  constructor
  · intro next
    cases next with
    | expression other => cases kind.symm.trans other
    | define same trace =>
        cases kind.symm.trans same
        exact ⟨_, _, trace, rfl⟩
    | refuse other => cases kind.symm.trans other
    | enter other => cases kind.symm.trans other
  · rintro ⟨result, final, trace, rfl⟩
    exact .define kind trace

theorem next_file_iff {operands : List Value} :
    Next ⟨session, loads, .file operands⟩ exchanges later ↔
      ∃ result final,
        Trace (loadedForms operands) session exchanges result final ∧
          later = Moment.opened loads result final := by
  constructor
  · intro next
    cases next with
    | read trace => exact ⟨_, _, trace, rfl⟩
  · rintro ⟨result, final, trace, rfl⟩
    exact .read trace

end Forms

/-- Upon a load follows that it is refused, if as many as the limit are in progress, and
else that it is entered. -/
theorem Moment.Counted.next_load_iff
    (counted : moment.Counted limit) {form : Value} {operands : List Value}
    (doing : moment.doing = .form form)
    (kind : TopLevelForm.ofValue form = .load operands) :
    Next moment exchanges later ↔
      exchanges = [] ∧
        (moment.inProgress = limit ∧ later = moment.refused ∨
          moment.inProgress < limit ∧ later = moment.entered operands) := by
  obtain ⟨session, loads, _⟩ := moment
  cases doing
  obtain ⟨loading, within, limited⟩ := counted
  dsimp only at loading limited
  constructor
  · intro next
    cases next with
    | expression other => cases kind.symm.trans other
    | define other => cases kind.symm.trans other
    | refuse other full => exact ⟨rfl, .inl ⟨by omega, rfl⟩⟩
    | enter other below =>
        cases kind.symm.trans other
        exact ⟨rfl, .inr ⟨by omega, rfl⟩⟩
  · rintro ⟨rfl, ⟨full, rfl⟩ | ⟨below, rfl⟩⟩
    · exact .refuse kind (by omega)
    · exact .enter kind (by omega)

end Moments

section Termination

/-- The moments that follow upon each other from here come to an end. -/
abbrev Moment.Finite (moment : Moment) : Prop :=
  Acc (fun later earlier => ∃ exchanges, Next earlier exchanges later) moment

/-- Whatever ends while these forms are still to run, the moments come to an end. -/
def Settles (limit : Nat) (loads : List (List Value)) : Prop :=
  ∀ {session result}, Moment.Counted limit ⟨session, loads, .ended result⟩ →
    Moment.Finite ⟨session, loads, .ended result⟩

theorem settles_nil (limit : Nat) : Settles limit [] := by
  intro session result counted
  constructor
  rintro later ⟨exchanges, next⟩
  cases next

theorem Settles.cons
    {limit : Nat} {loads : List (List Value)} (settles : Settles limit loads)
    (each : ∀ forms, Settles limit (forms :: loads) → ∀ {session form},
      Moment.Counted limit ⟨session, forms :: loads, .form form⟩ →
        Moment.Finite ⟨session, forms :: loads, .form form⟩)
    (forms : List Value) : Settles limit (forms :: loads) := by
  induction forms with
  | nil =>
      intro session result counted
      constructor
      rintro later ⟨exchanges, next⟩
      have afterwards := next.counted counted
      cases next with
      | leave => exact settles afterwards
      | abandon => exact settles afterwards
  | cons form forms induction =>
      intro session result counted
      constructor
      rintro later ⟨exchanges, next⟩
      have afterwards := next.counted counted
      cases next with
      | goOn => exact each forms induction afterwards
      | abandon => exact settles afterwards

/-- The induction is on how many more loads can be entered. -/
theorem finite_form
    {limit more : Nat} {loads : List (List Value)} (room : limit ≤ loads.length + more)
    (settles : Settles limit loads) {session : Session} {form : Value}
    (counted : Moment.Counted limit ⟨session, loads, .form form⟩) :
    Moment.Finite ⟨session, loads, .form form⟩ := by
  induction more generalizing loads session form with
  | zero =>
      constructor
      rintro later ⟨exchanges, next⟩
      have afterwards := next.counted counted
      cases next with
      | enter =>
          have within : loads.length + 1 ≤ limit := afterwards.within
          omega
      | _ => exact settles afterwards
  | succ more induction =>
      constructor
      rintro later ⟨exchanges, next⟩
      have afterwards := next.counted counted
      cases next with
      | enter =>
          have inner := settles.cons fun forms =>
            induction (by rw [List.length_cons]; omega)
          constructor
          rintro later ⟨exchanges, next⟩
          have afterwards := next.counted afterwards
          obtain ⟨result, final, -, rfl⟩ := next_file_iff.mp next
          cases result with
          | ok forms => exact inner forms afterwards
          | error stop => exact inner [] afterwards
      | _ => exact settles afterwards

theorem Moment.finite_start (session : Session) (form : Value) :
    (Moment.start session form).Finite :=
  finite_form (Nat.le_add_left _ _) (settles_nil _) (Moment.counted_start session form)

end Termination

end EffectLisp.Session
