import EffectLisp.Proofs.Datum.Refusal
import EffectLisp.Proofs.Eval.Limit
import EffectLisp.Proofs.Session.File

/-!
# A load runs the forms of its file

The forms of a file run with one more load in progress and with room for one less.  A
step with fewer loads in progress and more room follows such a step, unless the limit
is reported, so the forms of a file do what they do as forms of the session, up to the
first that fails.
-/

namespace EffectLisp

open Run (Trace)

namespace Session

/-- The same bindings within the limit, and no more loads in progress. -/
structure Freer (limit : Nat) (session other : Session) : Prop where
  context : other.context = session.context
  serial : other.serial = session.serial
  loading : other.loading ≤ session.loading
  limit : session.context.maxDepth = limit

theorem Freer.leave
    {limit : Nat} {session other : Session} (freer : Freer limit session other)
    (result : Except Stop Value) :
    Freer limit (leave result session) (leave result other) := by
  unfold Session.leave
  split
  · exact freer
  · exact ⟨freer.context, freer.serial, Nat.sub_le_sub_right freer.loading 1, freer.limit⟩

section Following

variable {limit : Nat} {excused : Stop → Prop}

theorem follows_inContext {α : Type} (evaluation : Context → Evaluation α) :
    Run.Follows excused (Freer limit) Eq (inContext evaluation) (inContext evaluation) := by
  rintro ⟨_, loading, _⟩ ⟨context, fewer, serial⟩ ⟨rfl, rfl, le, limited⟩
  apply Interaction.Follows.bind
    (.refl (fun _ => rfl) (fun _ => False) (evaluation context serial))
  · rintro ⟨result, last⟩ _ rfl
    exact .done ⟨sameEnd_eq_iff.mpr rfl, rfl, rfl, le, limited⟩
  · nofun

theorem follows_define (operands : List Value) :
    Run.Follows excused (Freer limit) Eq (define operands) (define operands) := by
  apply (follows_inContext _).bind_eq
  rintro ⟨name, v⟩ session other ⟨context, serial, loading, limited⟩
  exact .done ⟨.ok rfl, congrArg (·.define name v) context, serial, loading, limited⟩

theorem follows_loadedForms (operands : List Value) :
    Run.Follows excused (Freer limit) Eq (loadedForms operands) (loadedForms operands) := by
  apply (follows_inContext _).bind_eq
  intro text
  cases Datum.readAll text with
  | ok forms => exact .pure rfl
  | error f => exact .fail f

theorem follows_stepsFrom
    {run other : Value → Step Value}
    (each : ∀ form, Run.Follows excused (Freer limit) Eq (run form) (other form))
    (last : Value) (forms : List Value) :
    Run.Follows excused (Freer limit) Eq (stepsFrom run last forms)
      (stepsFrom other last forms) := by
  induction forms generalizing last with
  | nil => exact .pure rfl
  | cons form forms induction => exact (each form).bind_eq induction

theorem follows_counted
    {load other : Step Value} (follows : Run.Follows excused (Freer limit) Eq load other) :
    Run.Follows excused (Freer limit) Eq (counted load) (counted other) := by
  rintro session freed ⟨context, serial, loading, limited⟩
  rw [counted_eq, counted_eq]
  apply Interaction.Follows.bind
    (follows { session with loading := session.loading + 1 }
      { freed with loading := freed.loading + 1 }
      ⟨context, serial, Nat.succ_le_succ loading, limited⟩)
  · rintro ⟨result, left⟩ ⟨_, right⟩ ⟨same, met⟩
    cases sameEnd_eq_iff.mp same
    exact .done ⟨same, met.leave result⟩
  · rintro ⟨result, left⟩ _ ⟨stop, rfl, excuse⟩
    exact .excused _ ⟨stop, rfl, excuse⟩

/-- A step with more room and no more loads in progress follows, unless the limit is
reported. -/
theorem follows_step {room wider : Nat} (within : room ≤ wider) (form : Value) :
    Run.Follows Stop.IsLimit (Freer limit) Eq (step room form) (step wider form) := by
  cases kind : TopLevelForm.ofValue form with
  | expression e =>
      rw [step_of_expression kind, step_of_expression kind]
      exact follows_inContext _
  | define operands =>
      rw [step_of_define kind, step_of_define kind]
      exact follows_define operands
  | load operands =>
      intro session other freer
      by_cases refused : session.context.maxDepth ≤ session.loading ∨ room = 0
      · rw [step_of_refused kind refused]
        exact .excused _ ⟨_, rfl, _, rfl⟩
      · obtain ⟨fewer, rfl⟩ : ∃ fewer, room = fewer + 1 := ⟨room - 1, by omega⟩
        obtain ⟨more, rfl⟩ : ∃ more, wider = more + 1 := ⟨wider - 1, by omega⟩
        have below : session.loading < session.context.maxDepth := by omega
        have other_below : other.loading < other.context.maxDepth := by
          rw [freer.context]
          exact Nat.lt_of_le_of_lt freer.loading below
        rw [step_of_load kind below, step_of_load kind other_below]
        have each := follows_step (Nat.le_of_succ_le_succ within)
        have follows := (follows_loadedForms operands).bind_eq
          (follows_stepsFrom each .unit)
        exact follows_counted follows session other freer
termination_by room

/-- Run forms in turn as forms of the session, up to the first that fails. -/
def runUntilFault (session : Session) (last : Value) :
    List Value → Interaction (Outcome × Session)
  | [] => pure (.value last, session)
  | form :: forms => do
      match ← session.runForm form with
      | (.value v, session) => session.runUntilFault v forms
      | (.fault f, session) => pure (.fault f, session)

theorem runUntilFault_cons (session : Session) (last form : Value) (forms : List Value) :
    session.runUntilFault last (form :: forms) =
      (step session.context.maxDepth form { session with loading := 0 }).bind fun pair =>
        match outcomeOf pair.1 with
        | .value v => pair.2.runUntilFault v forms
        | .fault f => .done (.fault f, pair.2) := by
  have unfolded : session.runUntilFault last (form :: forms) =
      (session.runForm form).bind fun pair =>
        match pair.1 with
        | .value v => pair.2.runUntilFault v forms
        | .fault f => .done (.fault f, pair.2) := by
    refine congrArg (Interaction.bind _) (funext fun pair => ?_)
    obtain ⟨v | f, final⟩ := pair <;> rfl
  rw [unfolded]
  exact Interaction.bind_assoc _ _ _

theorem follows_runUntilFault
    {room : Nat} (within : room ≤ limit) (last : Value) (forms : List Value)
    {session other : Session} (context : other.context = session.context)
    (serial : other.serial = session.serial) (limited : session.context.maxDepth = limit) :
    Interaction.Follows
      (fun left => ∃ stop, left.1 = .error stop ∧ stop.IsLimit)
      (fun left right => right.1 = outcomeOf left.1 ∧
        right.2.context = left.2.context ∧ right.2.serial = left.2.serial)
      (stepsFrom (step room) last forms session) (other.runUntilFault last forms) := by
  induction forms generalizing last session other with
  | nil => exact .done ⟨rfl, context, serial⟩
  | cons form forms induction =>
      have freer : Freer limit session { other with loading := 0 } :=
        ⟨context, serial, Nat.zero_le _, limited⟩
      have first := follows_step within form session _ freer
      have sameLimit : other.context.maxDepth = limit := by rw [context, limited]
      rw [runUntilFault_cons, sameLimit]
      apply Interaction.Follows.bind first
      · rintro ⟨result, left⟩ ⟨_, right⟩ ⟨same, met⟩
        cases sameEnd_eq_iff.mp same
        cases result with
        | ok v => exact induction v met.context met.serial met.limit
        | error stop =>
          cases stop <;> exact .done ⟨rfl, met.context, met.serial⟩
      · rintro ⟨result, left⟩ _ ⟨stop, rfl, excuse⟩
        exact .excused _ ⟨stop, rfl, excuse⟩

end Following

section Playing

variable {σ : Type} {bridge : Bridge σ} {world last : σ} {session : Session}
  {path text : String}

theorem ofValue_load {operands : List Value} :
    TopLevelForm.ofValue (.list (.symbol "load" :: operands)) = .load operands := rfl

/-- A load that is entered runs the forms of its file as steps of its own. -/
theorem play_runForm_load
    (slurps : Slurps session.context)
    (answers : Interaction.Answers bridge world (served path text) last)
    {room : Nat} (limited : session.context.maxDepth = room + 1) {forms : List Value}
    (readable : Datum.readAll text = .ok forms) :
    bridge.play world (session.runForm (.list [.symbol "load", .string path])) =
      let rest := bridge.play last
        (stepsFrom (step room) .unit forms { session with loading := 1 })
      ⟨served path text ++ rest.exchanges,
        (outcomeOf rest.result.1, leave rest.result.1 rest.result.2), rest.world⟩ := by
  have below : 0 < session.context.maxDepth := by omega
  have slurps_inside : Slurps ({ session with loading := 1 } : Session).context := slurps
  have first := (trace_forms_string slurps_inside readable).play_eq_of_answers answers
  rw [runForm_eq, limited, step_of_load ofValue_load below, counted_eq, Run.bind_eq,
    Interaction.play_bind, Interaction.play_bind, Interaction.play_bind, first]
  simp [Bridge.play]

theorem play_runForm_unreadable
    (slurps : Slurps session.context)
    (answers : Interaction.Answers bridge world (served path text) last)
    {room : Nat} (limited : session.context.maxDepth = room + 1) {f : Fault}
    (refused : Datum.readAll text = .error f) :
    bridge.play world (session.runForm (.list [.symbol "load", .string path])) =
      ⟨served path text, (.fault f, { session with loading := 0 }), last⟩ := by
  have below : 0 < session.context.maxDepth := by omega
  have slurps_inside : Slurps ({ session with loading := 1 } : Session).context := slurps
  have first := (trace_loadedForms_string slurps_inside).play_eq_of_answers answers
  rw [refused] at first
  rw [runForm_eq, limited, step_of_load ofValue_load below, counted_eq, Run.bind_eq,
    Interaction.play_bind, Interaction.play_bind, Interaction.play_bind, first]
  rfl

theorem play_runForm_of_no_room
    {e : Value} (limited : session.context.maxDepth = 0) :
    (bridge.play world (session.runForm (.list [.symbol "load", e]))).result.1 =
      .fault (.recursionLimit 0) := by
  have refused : step 0 (.list [.symbol "load", e]) { session with loading := 0 } = _ :=
    step_of_refused ofValue_load (.inr rfl)
  rw [runForm_eq, limited, refused, limited]
  rfl

end Playing

/-- A load whose file is there, and which does not end in a report of the limit, asks for
the file.  If that cannot be read, nothing else happens.  If it can, the load goes on like
the forms of the file run one after the other as forms of a session with the same
bindings, which numbers lambdas alike, up to the first that fails: by the same exchanges,
and to the same outcome and bindings. -/
theorem load_inlines_file
    {σ : Type} (bridge : Bridge σ) {world probed read : σ} (session : Session)
    (path text : String)
    (slurps : session.context.find? "slurp" = some (.callable (.primitive .slurp)))
    (found : bridge.perform (.probe path) world = (.value (.bool true), probed))
    (given : bridge.perform (.read path) probed = (.value (.string text), read))
    (finished : ∀ limit,
      (bridge.play world
        (session.runForm (.list [.symbol "load", .string path]))).result.1 ≠
          .fault (.recursionLimit limit)) :
    let asked : List Exchange :=
      [⟨.probe path, .value (.bool true)⟩, ⟨.read path, .value (.string text)⟩]
    let loaded := bridge.play world
      (session.runForm (.list [.symbol "load", .string path]))
    (∀ f, Datum.readAll text = .error f →
      f.kind = "ParseFailure" ∧ loaded.exchanges = asked ∧
        loaded.result = (.fault f, { session with loading := 0 }) ∧
        loaded.world = read) ∧
    ∀ forms, Datum.readAll text = .ok forms →
      ∀ other : Session, other.context = session.context → other.serial = session.serial →
        let inlined := bridge.play read (other.runUntilFault .unit forms)
        loaded.exchanges = asked ++ inlined.exchanges ∧
          loaded.result.1 = inlined.result.1 ∧
          loaded.result.2.context = inlined.result.2.context ∧
          loaded.result.2.serial = inlined.result.2.serial ∧
          loaded.world = inlined.world := by
  intro asked loaded
  have answers : Interaction.Answers bridge world (served path text) read :=
    .cons found (.cons given (.nil read))
  obtain ⟨room, limited⟩ : ∃ room, session.context.maxDepth = room + 1 := by
    cases limited : session.context.maxDepth with
    | zero => exact absurd (play_runForm_of_no_room limited) (finished 0)
    | succ room => exact ⟨room, rfl⟩
  constructor
  · intro f refused
    have played := play_runForm_unreadable slurps answers limited refused
    obtain ⟨e, rfl⟩ := Datum.eq_parseFailure_of_readAll refused
    exact ⟨rfl, congrArg Played.exchanges played, congrArg Played.result played,
      congrArg Played.world played⟩
  · intro forms readable other context serial inlined
    have played : loaded = _ := play_runForm_load slurps answers limited readable
    have within : room ≤ session.context.maxDepth := by omega
    have follows : Interaction.Follows _ _
        (stepsFrom (step room) .unit forms { session with loading := 1 })
        (other.runUntilFault .unit forms) :=
      follows_runUntilFault within .unit forms context serial rfl
    have alike := follows.play bridge read (by
      rintro ⟨stop, stopped, limit, rfl⟩
      refine finished limit ?_
      change loaded.result.1 = _
      rw [played]
      exact congrArg outcomeOf stopped)
    obtain ⟨exchanges, ⟨outcome, bindings, numbered⟩, worlds⟩ := alike
    rw [played]
    refine ⟨?_, outcome.symm, ?_, ?_, worlds.symm⟩
    · exact congrArg (asked ++ ·) exchanges.symm
    · exact (context_leave _ _).trans bindings.symm
    · exact (serial_leave _ _).trans numbered.symm

/-- A file that loads another, which defines a name, and then uses one that nothing
defines. -/
theorem load_inlines_file_nested :
    let session := start (Context.root.withMaxDepth 2) 0
    let forms : List Value := [.list [.symbol "load", .string "g"], .symbol "b"]
    let answers : List Reply :=
      [.value (.bool true), .value (.string "(define a \"x\")")]
    let inlined := Interaction.prepared.play answers (session.runUntilFault .unit forms)
    session.context.find? "slurp" = some (.callable (.primitive .slurp)) ∧
      inlined.exchanges =
        [⟨.probe "g", .value (.bool true)⟩,
          ⟨.read "g", .value (.string "(define a \"x\")")⟩] ∧
      inlined.result.1 = .fault (.unbound "b") ∧
      inlined.result.2.context.find? "a" = some (.string "x") := by
  intro session forms answers inlined
  have slurps : session.context.find? "slurp" = some (.callable (.primitive .slurp)) :=
    rfl
  have reads : Datum.readAll "(load \"g\") b" = .ok forms :=
    Datum.readAll_eq_ok_iff.mpr
      ⟨[⟨.opening, 0⟩, ⟨.atom "load", 1⟩, ⟨.literal "g", 6⟩, ⟨.closing, 9⟩,
          ⟨.atom "b", 11⟩],
        eq_ok_of_toOption (by decide +kernel), Datum.parseAll_eq_ok_iff.mp rfl⟩
  have reads_inner : Datum.readAll "(define a \"x\")" =
      .ok [.list [.symbol "define", .symbol "a", .string "x"]] :=
    Datum.readAll_eq_ok_iff.mpr
      ⟨[⟨.opening, 0⟩, ⟨.atom "define", 1⟩, ⟨.atom "a", 8⟩, ⟨.literal "x", 10⟩,
          ⟨.closing, 13⟩],
        eq_ok_of_toOption (by decide +kernel), Datum.parseAll_eq_ok_iff.mp rfl⟩
  have defines : Ran 0 session.entered.entered
      (.list [.symbol "define", .symbol "a", .string "x"]) [] (.ok (.symbol "a"))
      (session.entered.entered.bound "a" (.string "x")) [("a", .string "x")] := by
    refine .defined rfl (trace_inContext_iff.mpr ⟨0, ?_, rfl⟩)
    with_unfolding_all exact .done _
  have slurps_inner : Slurps session.entered.entered.context := slurps
  have inner : Ran 1 session.entered (.list [.symbol "load", .string "g"]) _
      (.ok (.symbol "a")) (session.entered.bound "a" (.string "x")) _ :=
    .loaded rfl (by decide) (trace_forms_string slurps_inner reads_inner) (.next defines .nil)
  have fails : Ran 1 (session.entered.bound "a" (.string "x")) (.symbol "b") []
      (.error (.fault (.unbound "b"))) (session.entered.bound "a" (.string "x")) [] := by
    refine .expression rfl (trace_inContext_iff.mpr ⟨0, ?_, rfl⟩)
    with_unfolding_all exact .done _
  have slurps_outer : Slurps session.entered.context := slurps
  have outer : Ran 2 session (.list [.symbol "load", .string "f"]) _ _ _ _ :=
    .loaded rfl (by decide) (trace_forms_string slurps_outer reads) (.next inner (.stop fails))
  have path : Interaction.Path (session.runForm (.list [.symbol "load", .string "f"])) _ _ :=
    path_runForm_iff.mpr ⟨_, outer.trace, rfl⟩
  have played := path.play_eq
  have same := (load_inlines_file Interaction.prepared session "f" "(load \"g\") b" slurps
    rfl rfl (by
      intro limit
      rw [played]
      nofun)).2 forms reads session rfl rfl
  rw [played] at same
  obtain ⟨exchanges, outcome, bindings, -, -⟩ := same
  refine ⟨slurps, ?_, outcome.symm, ?_⟩
  · exact (List.append_cancel_left exchanges).symm
  · exact (congrArg (Context.find? · "a") bindings).symm

end Session

end EffectLisp
