import EffectLisp.Proofs.Session.Trace

/-!
# What happens in a step

A step evaluates an expression, evaluates a definition and binds its name, or
runs the forms of a file as further steps, up to the first that stops.  The
relation `Ran` says so, and collects the definitions that succeed on the way.
The traces of steps are exactly what it describes.
-/

namespace EffectLisp.Session

open Run (Trace)

/-- The forms of the file that a load names. -/
def loadedForms (operands : List Value) : Step (List Value) := do
  let text ← inContext fun context => fileText context operands
  Run.ofExcept (Datum.readAll text)

/-- The session while a load is in progress. -/
def entered (session : Session) : Session :=
  { session with loading := session.loading + 1 }

/-- The session with a global name bound anew. -/
def bound (session : Session) (name : String) (v : Value) : Session :=
  { session with context := session.context.define name v }

mutual

/-- A form runs from a session to a session by these exchanges and with this
result, and these definitions succeed in it, in order. -/
inductive Ran : Nat → Session → Value → List Exchange → Except Stop Value →
    Session → List (String × Value) → Prop where
  | expression {room : Nat} {session final : Session} {form e : Value}
      {exchanges : List Exchange} {result : Except Stop Value} :
      TopLevelForm.ofValue form = .expression e →
      Trace (inContext fun context => Eval.eval context e) session exchanges result
        final →
      Ran room session form exchanges result final []
  | defined {room : Nat} {session final : Session} {form : Value}
      {operands : List Value} {exchanges : List Exchange} {name : String} {v : Value} :
      TopLevelForm.ofValue form = .define operands →
      Trace (inContext fun context => definition context operands) session exchanges
        (.ok (name, v)) final →
      Ran room session form exchanges (.ok (.symbol name)) (final.bound name v)
        [(name, v)]
  | undefined {room : Nat} {session final : Session} {form : Value}
      {operands : List Value} {exchanges : List Exchange} {stop : Stop} :
      TopLevelForm.ofValue form = .define operands →
      Trace (inContext fun context => definition context operands) session exchanges
        (.error stop) final →
      Ran room session form exchanges (.error stop) final []
  | refused {room : Nat} {session : Session} {form : Value} {operands : List Value} :
      TopLevelForm.ofValue form = .load operands →
      session.context.maxDepth ≤ session.loading ∨ room = 0 →
      Ran room session form []
        (.error (.fault (.recursionLimit session.context.maxDepth))) session []
  | unread {room : Nat} {session final : Session} {form : Value}
      {operands : List Value} {exchanges : List Exchange} {stop : Stop} :
      TopLevelForm.ofValue form = .load operands →
      session.loading < session.context.maxDepth →
      Trace (loadedForms operands) session.entered exchanges (.error stop) final →
      Ran (room + 1) session form exchanges (.error stop)
        (leave (.error stop : Except Stop Value) final) []
  | loaded {room : Nat} {session middle final : Session} {form : Value}
      {operands forms : List Value} {front back : List Exchange}
      {result : Except Stop Value} {definitions : List (String × Value)} :
      TopLevelForm.ofValue form = .load operands →
      session.loading < session.context.maxDepth →
      Trace (loadedForms operands) session.entered front (.ok forms) middle →
      RanAll room middle .unit forms back result final definitions →
      Ran (room + 1) session form (front ++ back) result (leave result final) definitions

/-- The forms of a file run in turn up to the first that stops; the result is
that of the last, or the given value if there are none. -/
inductive RanAll : Nat → Session → Value → List Value → List Exchange →
    Except Stop Value → Session → List (String × Value) → Prop where
  | nil {room : Nat} {session : Session} {last : Value} :
      RanAll room session last [] [] (.ok last) session []
  | stop {room : Nat} {session final : Session} {last form : Value} {forms : List Value}
      {exchanges : List Exchange} {stop : Stop} {definitions : List (String × Value)} :
      Ran room session form exchanges (.error stop) final definitions →
      RanAll room session last (form :: forms) exchanges (.error stop) final definitions
  | next {room : Nat} {session middle final : Session} {last form v : Value}
      {forms : List Value} {front back : List Exchange} {result : Except Stop Value}
      {definitions later : List (String × Value)} :
      Ran room session form front (.ok v) middle definitions →
      RanAll room middle v forms back result final later →
      RanAll room session last (form :: forms) (front ++ back) result final
        (definitions ++ later)

end

section Steps

variable {session final : Session} {exchanges : List Exchange}
  {result : Except Stop Value}

theorem step_of_expression
    {form e : Value} (kind : TopLevelForm.ofValue form = .expression e) (room : Nat) :
    step room form = inContext fun context => Eval.eval context e := by
  simp [step, kind]

theorem step_of_define
    {form : Value} {operands : List Value}
    (kind : TopLevelForm.ofValue form = .define operands) (room : Nat) :
    step room form = define operands := by
  simp [step, kind]

theorem loadFile_eq (run : Value → Step Value) (operands : List Value) :
    loadFile run operands = loadedForms operands >>= stepsFrom run .unit := by
  rw [loadedForms, bind_assoc]
  rfl

theorem trace_define_iff {operands : List Value} :
    Trace (define operands) session exchanges result final ↔
      (∃ name v middle,
        Trace (inContext fun context => definition context operands) session exchanges
            (.ok (name, v)) middle ∧
          result = .ok (.symbol name) ∧ final = middle.bound name v) ∨
      ∃ stop,
        result = .error stop ∧
          Trace (inContext fun context => definition context operands) session exchanges
            (.error stop) final := by
  have binding (name : String) (v : Value) (middle : Session) (back : List Exchange) :
      Trace (do bindGlobal name v; pure (.symbol name)) middle back result final ↔
        back = [] ∧ result = .ok (.symbol name) ∧ final = middle.bound name v :=
    Run.trace_iff_of_done rfl
  rw [define, Run.trace_bind_iff]
  refine or_congr_left ?_
  constructor
  · intro given
    obtain ⟨⟨name, v⟩, middle, front, back, rfl, path, later⟩ := given
    obtain ⟨rfl, same⟩ := (binding name v middle back).mp later
    rw [List.append_nil]
    exact ⟨name, v, middle, path, same⟩
  · intro given
    obtain ⟨name, v, middle, path, same⟩ := given
    exact ⟨(name, v), middle, exchanges, [], by simp, path,
      (binding name v middle []).mpr ⟨rfl, same⟩⟩

section Load

variable {room : Nat} {form : Value} {operands : List Value}

theorem step_of_refused
    (kind : TopLevelForm.ofValue form = .load operands)
    (refused : session.context.maxDepth ≤ session.loading ∨ room = 0) :
    step room form session =
      .done (.error (.fault (.recursionLimit session.context.maxDepth)), session) := by
  rw [step, kind]
  by_cases full : session.context.maxDepth ≤ session.loading
  · exact congrFun (if_pos full) session
  · cases refused.resolve_left full
    exact congrFun (if_neg full) session

theorem step_of_load
    (kind : TopLevelForm.ofValue form = .load operands)
    (below : session.loading < session.context.maxDepth) :
    step (room + 1) form session =
      counted (loadedForms operands >>= stepsFrom (step room) .unit) session := by
  rw [step, kind, ← loadFile_eq]
  exact congrFun (if_neg (Nat.not_le.mpr below)) session

theorem trace_refused_iff
    (kind : TopLevelForm.ofValue form = .load operands)
    (refused : session.context.maxDepth ≤ session.loading ∨ room = 0) :
    Trace (step room form) session exchanges result final ↔
      exchanges = [] ∧
        result = .error (.fault (.recursionLimit session.context.maxDepth)) ∧
          final = session :=
  Run.trace_iff_of_done (step_of_refused kind refused)

theorem trace_load_iff
    (kind : TopLevelForm.ofValue form = .load operands)
    (below : session.loading < session.context.maxDepth) :
    Trace (step (room + 1) form) session exchanges result final ↔
      ∃ left,
        Trace (loadedForms operands >>= stepsFrom (step room) .unit) session.entered
            exchanges result left ∧
          final = leave result left := by
  rw [Trace, step_of_load kind below]
  exact trace_counted_iff

end Load

end Steps

section Adequacy

/-- If the traces of single forms are described, so are those of forms in turn. -/
theorem RanAll.of_trace
    {room : Nat} {session final : Session} {exchanges : List Exchange}
    {result : Except Stop Value}
    (each : ∀ {session form exchanges result final},
      Trace (step room form) session exchanges result final →
        ∃ definitions, Ran room session form exchanges result final definitions)
    {last : Value} {forms : List Value}
    (trace : Trace (stepsFrom (step room) last forms) session exchanges result final) :
    ∃ definitions, RanAll room session last forms exchanges result final definitions := by
  induction forms generalizing session last exchanges with
  | nil =>
      obtain ⟨rfl, rfl, rfl⟩ := Run.trace_pure_iff.mp trace
      exact ⟨[], .nil⟩
  | cons form forms induction =>
      rcases Run.trace_bind_iff.mp trace with
        ⟨v, middle, front, back, rfl, first, later⟩ | ⟨stop, rfl, first⟩
      · obtain ⟨definitions, ran⟩ := each first
        obtain ⟨others, ranAll⟩ := induction later
        exact ⟨definitions ++ others, .next ran ranAll⟩
      · obtain ⟨definitions, ran⟩ := each first
        exact ⟨definitions, .stop ran⟩

/-- Every trace of a step is described. -/
theorem Ran.of_trace
    {room : Nat} {session final : Session} {form : Value} {exchanges : List Exchange}
    {result : Except Stop Value}
    (trace : Trace (step room form) session exchanges result final) :
    ∃ definitions, Ran room session form exchanges result final definitions := by
  cases kind : TopLevelForm.ofValue form with
  | expression e =>
      rw [step_of_expression kind] at trace
      exact ⟨[], .expression kind trace⟩
  | define operands =>
      rw [step_of_define kind] at trace
      rcases trace_define_iff.mp trace with
        ⟨name, v, middle, path, rfl, rfl⟩ | ⟨stop, rfl, path⟩
      · exact ⟨[(name, v)], .defined kind path⟩
      · exact ⟨[], .undefined kind path⟩
  | load operands =>
      by_cases refused : session.context.maxDepth ≤ session.loading ∨ room = 0
      · obtain ⟨rfl, rfl, rfl⟩ := (trace_refused_iff kind refused).mp trace
        exact ⟨[], .refused kind refused⟩
      · have below : session.loading < session.context.maxDepth := by omega
        obtain ⟨fewer, rfl⟩ : ∃ fewer, room = fewer + 1 := ⟨room - 1, by omega⟩
        obtain ⟨left, path, rfl⟩ := (trace_load_iff kind below).mp trace
        rcases Run.trace_bind_iff.mp path with
          ⟨forms, middle, front, back, rfl, first, later⟩ | ⟨stop, rfl, first⟩
        · obtain ⟨definitions, ranAll⟩ := RanAll.of_trace Ran.of_trace later
          exact ⟨definitions, .loaded kind below first ranAll⟩
        · exact ⟨[], .unread kind below first⟩
termination_by room

mutual

/-- What is described is a trace of the step. -/
theorem Ran.trace
    {room : Nat} {session final : Session} {form : Value} {exchanges : List Exchange}
    {result : Except Stop Value} {definitions : List (String × Value)} :
    Ran room session form exchanges result final definitions →
      Trace (step room form) session exchanges result final
  | .expression kind path => by
      rw [step_of_expression kind]
      exact path
  | .defined kind path => by
      rw [step_of_define kind]
      exact trace_define_iff.mpr (.inl ⟨_, _, _, path, rfl, rfl⟩)
  | .undefined kind path => by
      rw [step_of_define kind]
      exact trace_define_iff.mpr (.inr ⟨_, rfl, path⟩)
  | .refused kind full => (trace_refused_iff kind full).mpr ⟨rfl, rfl, rfl⟩
  | .unread kind below path =>
      (trace_load_iff kind below).mpr
        ⟨_, Run.trace_bind_iff.mpr (.inr ⟨_, rfl, path⟩), rfl⟩
  | .loaded kind below path ranAll =>
      (trace_load_iff kind below).mpr
        ⟨_, Run.trace_bind_iff.mpr (.inl ⟨_, _, _, _, rfl, path, ranAll.trace⟩), rfl⟩

theorem RanAll.trace
    {room : Nat} {session final : Session} {exchanges : List Exchange}
    {result : Except Stop Value} {last : Value} {forms : List Value}
    {definitions : List (String × Value)} :
    RanAll room session last forms exchanges result final definitions →
      Trace (stepsFrom (step room) last forms) session exchanges result final
  | .nil => Run.trace_pure_iff.mpr ⟨rfl, rfl, rfl⟩
  | .stop ran => Run.trace_bind_iff.mpr (.inr ⟨_, rfl, ran.trace⟩)
  | .next ran ranAll =>
      Run.trace_bind_iff.mpr (.inl ⟨_, _, _, _, rfl, ran.trace, ranAll.trace⟩)

end

end Adequacy

end EffectLisp.Session
