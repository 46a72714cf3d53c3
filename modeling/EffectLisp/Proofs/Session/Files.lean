import EffectLisp.Proofs.FileSystem.Steps
import EffectLisp.Proofs.Host.Files
import EffectLisp.Proofs.Session.Saved

/-!
# Files as sessions see them

In a session on a host that serves a store of files, forms that use files do to the store
what the steps they stand for do.  So what is known of such steps is known of sessions:
a text that is read is what was written, read-only files stay as they are, and a file that
cannot be found is one that does not exist.
-/

namespace EffectLisp

open Run (Trace)

namespace FileStep

/-- The primitive that does the step. -/
def primitive : FileStep → Primitive
  | put .. => .put
  | append .. => .append
  | slurp _ => .slurp
  | fileExists _ => .fileExists

def operands : FileStep → List String
  | put path content | append path content => [path, content]
  | slurp path | fileExists path => [path]

/-- The form that asks for the step. -/
def form (step : FileStep) : Value :=
  .list (.symbol step.primitive.name :: step.operands.map .string)

/-- The step as a computation. -/
def run (step : FileStep) : Evaluation Value :=
  step.primitive.run (step.operands.map .string)

/-- The primitives that do steps. -/
def primitives : List Primitive :=
  [.put, .append, .slurp, .fileExists]

theorem primitive_mem (step : FileStep) : step.primitive ∈ primitives := by
  cases step <;> simp [primitive, primitives]

end FileStep

theorem Eval.operands_map_string (ctx : Context) (texts : List String) :
    operands (eval ctx) (texts.map .string) = pure (texts.map .string) := by
  induction texts with
  | nil => rfl
  | cons text texts induction =>
      rw [List.map_cons, operands, eval_string, induction]
      rfl

/-- Where there is room for it a form is evaluated to the step it stands for. -/
theorem FileStep.eval_form
    {ctx inner : Context} (kept : ctx.Keeps primitives) (entered : ctx.nested = .ok inner)
    (roomier : inner.Roomier ctx) (step : FileStep) : Eval.eval ctx step.form = step.run := by
  have bound : inner.find? step.primitive.name = some (.callable (.primitive step.primitive)) :=
    (roomier.find?_eq _).symm.trans (kept _ step.primitive_mem)
  have accepted : step.primitive.arity.accepts (step.operands.map Value.string).length = true := by
    cases step <;> rfl
  have other : step.primitive ≠ .evalValue := by cases step <;> nofun
  rw [form, Eval.eval_call entered step.primitive.ofName?_name bound,
    Eval.operands_map_string, pure_bind, Eval.apply_primitive inner other accepted, run]

section Playing

variable {ω : Type} {bridge : Bridge ω} {world after : ω}

theorem Run.play_perform
    {effect : Effect} {reply : Reply} (performed : bridge.perform effect world = (reply, after))
    (serial : Nat) :
    bridge.play world (Run.perform effect serial) =
      ⟨[⟨effect, reply⟩], (reply.answer, serial), after⟩ := by
  unfold Run.perform
  rw [Bridge.play, performed]
  cases reply <;> rfl

theorem Primitive.play_probe_bind
    {path : String} {found : Bool}
    (performed : bridge.perform (.probe path) world = (.value (.bool found), after))
    {α : Type} (next : Bool → Evaluation α) (serial : Nat) :
    bridge.play world ((probe path >>= next) serial) =
      let rest := bridge.play after (next found serial)
      ⟨⟨.probe path, .value (.bool found)⟩ :: rest.exchanges, rest.result, rest.world⟩ := by
  have trace : Trace (probe path) serial [⟨.probe path, .value (.bool found)⟩]
      (.ok found) serial :=
    trace_probe_iff.mpr ⟨_, rfl, rfl, rfl⟩
  exact trace.play_bind (.cons performed (.nil after))

end Playing

/-- What `slurp` reports of a file that does not exist. -/
def Fault.fileNotFound (path : String) : Fault :=
  .io ("slurp: file not found: " ++ path) path

theorem Fault.cannotRead_ne_fileNotFound (path reason : String) :
    Fault.io ("cannot read " ++ path ++ ": " ++ reason) path ≠ .fileNotFound path := by
  intro same
  have texts : "cannot read " ++ path ++ ": " ++ reason = "slurp: file not found: " ++ path := by
    injection same
  have first := congrArg (·.toList.head?) texts
  simp [String.toList_append] at first

namespace Host.Serves

variable {ω : Type} {host : Host (StateM ω)} {files : ω → FileSystem}
  (serves : host.Serves files)

include serves

theorem play_fileExists (path : String) (world : ω) (serial : Nat) :
    ∃ exchanges after, host.bridge.play world ((FileStep.fileExists path).run serial) =
        ⟨exchanges, (.ok (.bool ((files world).exists? path)), serial), after⟩ ∧
      files after = files world := by
  obtain ⟨after, performed, kept⟩ := serves.perform_probe path world
  have played := Primitive.play_probe_bind performed (fun found => pure (Value.bool found)) serial
  exact ⟨_, after, played, kept⟩

/-- A file that exists is read, unless that fails, and one that does not is reported. -/
theorem play_slurp (path : String) (world : ω) (serial : Nat) :
    ∃ exchanges result after,
      host.bridge.play world ((FileStep.slurp path).run serial) =
          ⟨exchanges, (result, serial), after⟩ ∧
        files after = files world ∧
        ((files world).exists? path = false ∧ result = .error (.fault (.fileNotFound path)) ∨
          (files world).exists? path = true ∧
            ((∃ text, result = .ok (.string text) ∧ (files world).readText path = .ok text) ∨
              ∃ f, result = .error (.fault f) ∧ f ≠ .fileNotFound path)) := by
  obtain ⟨middle, probed, kept⟩ := serves.perform_probe path world
  have played := Primitive.play_probe_bind probed (fun found =>
    if found then Run.perform (.read path) else Run.fail (.fileNotFound path)) serial
  change host.bridge.play world ((FileStep.slurp path).run serial) = _ at played
  cases found : (files world).exists? path with
  | false =>
      rw [found] at played
      exact ⟨_, _, middle, played, kept, .inl ⟨rfl, rfl⟩⟩
  | true =>
      obtain ⟨reply, after, performed, kept_after, what⟩ := serves.perform_read path middle
      rw [found] at played
      simp only [if_true, Run.play_perform performed] at played
      refine ⟨_, _, after, played, kept_after.trans kept, .inr ⟨rfl, ?_⟩⟩
      rw [kept] at what
      rcases what with ⟨text, rfl, read⟩ | ⟨error, rfl⟩
      · exact .inl ⟨text, rfl, read⟩
      · exact .inr ⟨_, rfl, Fault.cannotRead_ne_fileNotFound path error.text⟩

theorem play_write
    {step : FileStep} {path content : String} {mode : WriteMode}
    (asked : step.write? = some (path, mode, content)) (world : ω) (serial : Nat) :
    ∃ exchanges result after,
      host.bridge.play world (step.run serial) = ⟨exchanges, (result, serial), after⟩ ∧
        step.Does (files world) (Session.outcomeOf result) (files after) := by
  obtain ⟨reply, after, performed, what⟩ := serves.perform_write path content mode world
  have played := Run.play_perform performed serial
  have same : step.run = Run.perform (.write path content mode) := by
    cases step <;> cases asked <;> rfl
  rw [← same] at played
  refine ⟨_, _, after, played, ?_⟩
  rcases what with ⟨message, rfl, unchanged⟩ | ⟨rfl, place, replaces⟩
  · rw [unchanged]
    exact .fails step _ _
  · exact .writes path content mode place asked replaces

/-- On the host a step does to the store what it stands for. -/
theorem does_run (step : FileStep) (world : ω) (serial : Nat) :
    ∃ exchanges result after,
      host.bridge.play world (step.run serial) = ⟨exchanges, (result, serial), after⟩ ∧
        step.Does (files world) (Session.outcomeOf result) (files after) := by
  cases step with
  | put path content => exact serves.play_write rfl world serial
  | append path content => exact serves.play_write rfl world serial
  | slurp path =>
      obtain ⟨exchanges, result, after, played, kept, what⟩ :=
        serves.play_slurp path world serial
      refine ⟨exchanges, result, after, played, ?_⟩
      rw [kept]
      rcases what with ⟨-, rfl⟩ | ⟨-, ⟨text, rfl, read⟩ | ⟨f, rfl, -⟩⟩
      · exact .fails _ _ _
      · exact .reads read
      · exact .fails _ _ _
  | fileExists path =>
      obtain ⟨exchanges, after, played, kept⟩ := serves.play_fileExists path world serial
      refine ⟨exchanges, _, after, played, ?_⟩
      rw [kept]
      exact .probes _ path

end Host.Serves

namespace Session

variable {ω : Type} {bridge : Bridge ω} {session : Session}

theorem ofValue_form (step : FileStep) :
    TopLevelForm.ofValue step.form = .expression step.form := by
  cases step <;> rfl

theorem play_runForm_of_nested
    {inner : Context} (kept : session.context.Keeps FileStep.primitives)
    (entered : session.context.nested = .ok inner) (world : ω)
    (roomier : inner.Roomier session.context) (step : FileStep) :
    bridge.play world (session.runForm step.form) =
      let own := bridge.play world (step.run session.serial)
      ⟨own.exchanges,
        (outcomeOf own.result.1, { session with loading := 0, serial := own.result.2 }),
        own.world⟩ := by
  rw [play_runForm_of_expression (ofValue_form step), step.eval_form kept entered roomier]

theorem play_runForm_of_full
    (refused : session.context.nested = .error (.recursionLimit session.context.maxDepth))
    (world : ω) (step : FileStep) :
    bridge.play world (session.runForm step.form) =
      ⟨[], (.fault (.recursionLimit session.context.maxDepth), { session with loading := 0 }),
        world⟩ := by
  rw [play_runForm_of_expression (ofValue_form step), Eval.eval_eq_activation, FileStep.form,
    Eval.activation, refused]
  rfl

theorem play_runForms_cons
    (bridge : Bridge ω) (world : ω) (session : Session) (form : Value) (forms : List Value) :
    bridge.play world (session.runForms (form :: forms)) =
      let first := bridge.play world (session.runForm form)
      let rest := bridge.play first.world (first.result.2.runForms forms)
      ⟨first.exchanges ++ rest.exchanges, (first.result.1 :: rest.result.1, rest.result.2),
        rest.world⟩ := by
  have inTurn : session.runForms (form :: forms) =
      (session.runForm form).bind fun first =>
        (first.2.runForms forms).bind fun rest => .done (first.1 :: rest.1, rest.2) := rfl
  rw [inTurn, Interaction.play_bind, Interaction.play_bind]
  simp only [Bridge.play, List.append_nil]

section Serving

variable {host : Host (StateM ω)} {files : ω → FileSystem} (serves : host.Serves files)

include serves

theorem does_runForm
    (session : Session) (kept : session.context.Keeps FileStep.primitives) (world : ω)
    (step : FileStep) :
    let played := host.bridge.play world (session.runForm step.form)
    played.result.2.context = session.context ∧
      step.Does (files world) played.result.1 (files played.world) := by
  intro played
  rcases session.context.nested_cases with refused | ⟨inner, entered, roomier⟩
  · have full : played = _ := play_runForm_of_full refused world step
    rw [full]
    exact ⟨rfl, .fails step _ _⟩
  · have ran : played = _ := play_runForm_of_nested kept entered world roomier step
    obtain ⟨exchanges, result, after, own, does⟩ :=
      serves.does_run step world session.serial
    rw [own] at ran
    rw [ran]
    exact ⟨rfl, does⟩

/-- A session on the host does to the store what its steps stand for. -/
theorem doAll_runForms
    (session : Session) (kept : session.context.Keeps FileStep.primitives) (world : ω)
    (steps : List FileStep) :
    let played := host.bridge.play world (session.runForms (steps.map FileStep.form))
    played.result.2.context = session.context ∧
      FileStep.DoAll steps (files world) played.result.1 (files played.world) := by
  induction steps generalizing session world with
  | nil => exact ⟨rfl, .nil _⟩
  | cons step steps induction =>
      rw [List.map_cons, play_runForms_cons]
      obtain ⟨same, does⟩ := does_runForm serves session kept world step
      have kept_after := kept
      rw [← same] at kept_after
      obtain ⟨same_later, later⟩ := induction _ kept_after _
      exact ⟨same_later.trans same, .cons does later⟩

/-- What is read of a file in a session is there, and what is reported as not found is what
does not exist. -/
theorem slurped_iff
    (session : Session) (kept : session.context.Keeps FileStep.primitives) (world : ω)
    (path : String) :
    let slurped := host.bridge.play world (session.runForm (FileStep.slurp path).form)
    let probed := host.bridge.play world (session.runForm (FileStep.fileExists path).form)
    (slurped.result.1 = .fault (.fileNotFound path) ↔
        probed.result.1 = .value (.bool false)) ∧
      ∀ v, slurped.result.1 = .value v →
        ∃ text, v = .string text ∧ (files world).readText path = .ok text := by
  intro slurped probed
  rcases session.context.nested_cases with refused | ⟨inner, entered, roomier⟩
  · have full_slurp : slurped = _ := play_runForm_of_full refused world (.slurp path)
    have full_probe : probed = _ := play_runForm_of_full refused world (.fileExists path)
    rw [full_slurp, full_probe]
    exact ⟨⟨nofun, nofun⟩, nofun⟩
  · have ran_slurp : slurped = _ :=
      play_runForm_of_nested kept entered world roomier (.slurp path)
    have ran_probe : probed = _ :=
      play_runForm_of_nested kept entered world roomier (.fileExists path)
    obtain ⟨_, result, _, played, -, what⟩ := serves.play_slurp path world session.serial
    obtain ⟨_, _, found, -⟩ := serves.play_fileExists path world session.serial
    rw [played] at ran_slurp
    rw [found] at ran_probe
    rw [ran_slurp, ran_probe]
    rcases what with ⟨missing, rfl⟩ | ⟨present, ⟨text, rfl, read⟩ | ⟨f, rfl, other⟩⟩
    · rw [missing]
      exact ⟨⟨fun _ => rfl, fun _ => rfl⟩, nofun⟩
    · rw [present]
      refine ⟨⟨nofun, nofun⟩, ?_⟩
      rintro v same
      cases same
      exact ⟨text, rfl, read⟩
    · rw [present]
      refine ⟨⟨?_, nofun⟩, nofun⟩
      intro same
      cases same
      exact absurd rfl other

end Serving

/-- A host that serves a store of files refines it.  A write is either refused, by a failure
about its path that leaves the store as it was, or answered with the content, and then the
one file that the path names has the content, after what it had before if it is appended,
and nothing else has changed.

So in a session of steps that use files, which all do to the store what they stand for, a
text that is read is the one that was put last into the file and all that was appended later,
or, if nothing was put there, what the file had at first and all that was appended.  A file
that is read-only keeps its content, and a file is reported as not found if and only if it is
found not to exist. -/
theorem refines_store
    {host : Host (StateM ω)} {files : ω → FileSystem} (serves : host.Serves files) :
    (∀ world path content mode,
      let (reply, after) := host.bridge.perform (.write path content mode) world
      (∃ message, reply = .fault (.io message path) ∧ files after = files world) ∨
        reply = .value (.string content) ∧ ∃ place,
          (files world).Replaces path place
            (mode.result ((files world).bytesAt place) content) (files after)) ∧
      ∀ (session : Session) (world : ω) (steps : List FileStep),
        session.context.Keeps FileStep.primitives →
        let ran := host.bridge.play world (session.runForms (steps.map FileStep.form))
        let now := files ran.world
        FileStep.DoAll steps (files world) ran.result.1 now ∧
          (∀ place content, (files world).find? place = some (.file content true) →
            now.find? place = some (.file content true)) ∧
          ∀ path,
            let slurped := host.bridge.play ran.world
              (ran.result.2.runForm (FileStep.slurp path).form)
            let probed := host.bridge.play ran.world
              (ran.result.2.runForm (FileStep.fileExists path).form)
            (∀ v, slurped.result.1 = .value v →
              ∃ text place, v = .string text ∧ now.placeOf? path = some place ∧
                FileSystem.TextAfter ((files world).bytesAt place)
                  (FileStep.writesTo now place (steps.zip ran.result.1)) text) ∧
              (slurped.result.1 = .fault (.fileNotFound path) ↔
                probed.result.1 = .value (.bool false)) := by
  constructor
  · intro world path content mode
    obtain ⟨reply, after, performed, what⟩ := serves.perform_write path content mode world
    rw [performed]
    exact what
  · intro session world steps kept ran now
    obtain ⟨same, done⟩ := doAll_runForms serves session kept world steps
    refine ⟨done, fun place content locked => done.find?_of_readOnly locked, ?_⟩
    intro path slurped probed
    rw [← same] at kept
    obtain ⟨reported, reads⟩ := slurped_iff serves ran.result.2 kept ran.world path
    refine ⟨?_, reported⟩
    intro v succeeds
    obtain ⟨text, rfl, read⟩ := reads v succeeds
    obtain ⟨place, named, after⟩ := done.exists_textAfter read
    exact ⟨text, place, rfl, named, after⟩

/-- A file is made by appending to it, replaced, and extended by way of another path, and
neither a file nor a directory that is read-only is opened. -/
theorem refines_store_locked :
    let content := "s".toUTF8
    let machine : Machine :=
      ⟨⟨[], [(["d"], .directory), (["l"], .file content true), (["s"], .directory)],
        [["s"]]⟩, []⟩
    let session := start .root 0
    let steps : List FileStep :=
      [.append "d/a" "x", .put "d/a" "y", .put "l" "z", .put "s" "z", .append "d/../d/a" "v"]
    let ran := Machine.host.bridge.play machine (session.runForms (steps.map FileStep.form))
    let now := ran.world.files
    let slurped := Machine.host.bridge.play ran.world
      (ran.result.2.runForm (FileStep.slurp "d/a").form)
    ran.result.1.map Outcome.display =
        ["\"x\"", "\"y\"", "IOFailure: l is not writable", "IOFailure: s is not writable",
          "\"v\""] ∧
      FileStep.writesTo now ["d", "a"] (steps.zip ran.result.1) =
        [(.append, "x"), (.truncate, "y"), (.append, "v")] ∧
      now.find? ["l"] = some (.file content true) ∧
      slurped.result.1 = .value (.string "yv") := by
  intro content machine session steps ran now slurped
  have outcomes : ran.result.1.map Outcome.display =
      ["\"x\"", "\"y\"", "IOFailure: l is not writable", "IOFailure: s is not writable",
        "\"v\""] := by decide +kernel
  have writes : FileStep.writesTo now ["d", "a"] (steps.zip ran.result.1) =
      [(.append, "x"), (.truncate, "y"), (.append, "v")] := by decide +kernel
  have kept := Context.keeps_root FileStep.primitives
  obtain ⟨-, locked, later⟩ := (refines_store Machine.host_serves).2 session machine steps kept
  have succeeds : slurped.result.1.isFault = false := by decide +kernel
  cases read : slurped.result.1 with
  | fault f =>
      rw [read] at succeeds
      cases succeeds
  | value v =>
      obtain ⟨text, place, rfl, named, after⟩ := (later "d/a").1 v read
      have leads : now.placeOf? "d/a" = some ["d", "a"] := by decide +kernel
      cases leads.symm.trans named
      have put := after.put [(.append, "x")] "y" [(.append, "v")] writes (by simp)
      rw [put]
      exact ⟨outcomes, writes, locked ["l"] content rfl, rfl⟩

end Session

end EffectLisp
