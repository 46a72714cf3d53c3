import EffectLisp.Proofs.Bridge.Store
import EffectLisp.Proofs.Datum.RoundTrip
import EffectLisp.Proofs.Eval.Call
import EffectLisp.Proofs.Session.File

/-!
# Programs saved in files

A program is saved by putting its text into a file, and restored by evaluating what the
text is read as.  On a bridge that stores the file the restored program runs like the
original in the same context.  Reading and showing are inverse to each other, and that the
restored program runs some levels deeper matters to the limit only.
-/

namespace EffectLisp

open Run (Follows Trace)

namespace Session

/-- The form that saves an expression. -/
def saving (path : String) (e : Value) : Value :=
  .list [.symbol "put", .string path,
    .list [.symbol "show", .list [.symbol "quote", e]]]

/-- The form that evaluates what has been saved. -/
def restoring (path : String) : Value :=
  .list [.symbol "eval",
    .list [.symbol "parse", .list [.symbol "slurp", .string path]]]

/-- The text of an expression goes into a file. -/
def save (path : String) (e : Value) : Evaluation Value := do
  let text ← Primitive.run .showValue [e]
  Primitive.run .put [.string path, text]

/-- What the text of a file is read as. -/
def restored (path : String) : Evaluation Value := do
  let text ← Primitive.run .slurp [.string path]
  Primitive.run .parseText [text]

section Following

variable {ctx : Context}

theorem follows_saving
    (kept : ctx.Keeps [.put, .showValue]) (path : String) (e : Value) :
    Follows Stop.IsLimit Eq Eq (Eval.eval ctx (saving path e)) (save path e) := by
  have quoted := Eval.follows_quote ctx e
  have shown := Eval.follows_unary (p := .showValue) (kept _ (by simp)) quoted
  have called := Eval.follows_binary_string (p := .put) (kept _ (by simp)) shown path
  have shows : Eval.apply ctx (.primitive .showValue) [e] = Primitive.run .showValue [e] :=
    Eval.apply_primitive ctx (by nofun) rfl
  have puts (text : Value) : Eval.apply ctx (.primitive .put) [.string path, text] =
      Primitive.run .put [.string path, text] :=
    Eval.apply_primitive ctx (by nofun) rfl
  simp only [pure_bind, shows, puts] at called
  exact called

theorem follows_restoring
    (kept : ctx.Keeps [.slurp, .parseText, .evalValue]) (path : String) :
    Follows Stop.IsLimit Eq Eq (Eval.eval ctx (restoring path))
      (restored path >>= Eval.eval ctx) := by
  have file := Follows.of_eq Stop.IsLimit (Eval.eval_string ctx path)
  have given := Eval.follows_unary (p := .slurp) (kept _ (by simp)) file
  have parsed := Eval.follows_unary (p := .parseText) (kept _ (by simp)) given
  have called := Eval.follows_unary (p := .evalValue) (kept _ (by simp)) parsed
  have parses (text : Value) : Eval.apply ctx (.primitive .parseText) [text] =
      Primitive.run .parseText [text] :=
    Eval.apply_primitive ctx (by nofun) rfl
  simp only [pure_bind, apply_slurp, parses] at called
  apply called.trans
  apply Follows.bind_eq (.refl _ _)
  exact Eval.follows_apply_evalValue ctx

end Following

/-- What is saved is the text of the expression, by one request. -/
theorem exists_written_of_save
    {path : String} {e v : Value} {serial final : Nat} {exchanges : List Exchange}
    (trace : Trace (save path e) serial exchanges (.ok v) final) :
    ∃ content, Datum.showValue e = .ok content ∧
      exchanges = [⟨.write path content .truncate, .value v⟩] ∧ final = serial := by
  rcases Run.trace_bind_iff.mp trace with
    ⟨text, middle, front, back, rfl, shown, later⟩ | ⟨stop, impossible, -⟩
  · rcases Run.trace_bind_iff.mp shown with
      ⟨content, start, asked, rest, rfl, given, result⟩ | ⟨stop, impossible, -⟩
    · obtain ⟨rfl, same, rfl⟩ := Run.trace_ofExcept_iff.mp given
      obtain ⟨rfl, same_text, rfl⟩ := Run.trace_pure_iff.mp result
      cases same_text
      have written : Trace (Run.perform (.write path content .truncate)) middle
          back (.ok v) final := later
      obtain ⟨reply, rfl, answer, rfl⟩ := Run.trace_perform_iff.mp written
      refine ⟨content, mapError_eq_ok_iff.mp same.symm, ?_, rfl⟩
      cases reply <;> cases answer
      rfl
    · cases impossible
  · cases impossible

theorem trace_restored
    {path content : String} {e : Value} (readable : Datum.read content = .ok e)
    (serial : Nat) :
    Trace (restored path) serial (served path content) (.ok e) serial := by
  have given : Trace (Primitive.run .slurp [.string path]) serial (served path content)
      (.ok (.string content)) serial :=
    trace_slurp_iff.mpr ⟨path, rfl, rfl, rfl⟩
  have parsed : Trace (Primitive.run .parseText [.string content]) serial [] (.ok e)
      serial := by
    apply Run.trace_ofExcept_iff.mpr
    rw [readable]
    exact ⟨rfl, rfl, rfl⟩
  apply Run.trace_bind_iff.mpr
  exact .inl ⟨.string content, serial, _, [], (List.append_nil _).symm, given, parsed⟩

/-- An expression takes no more of a session than the serial numbers it gives. -/
theorem play_runForm_of_expression
    {form e : Value} (kind : TopLevelForm.ofValue form = .expression e) (session : Session)
    {ω : Type} (bridge : Bridge ω) (world : ω) :
    bridge.play world (session.runForm form) =
      let own := bridge.play world (Eval.eval session.context e session.serial)
      ⟨own.exchanges,
        (outcomeOf own.result.1, { session with loading := 0, serial := own.result.2 }),
        own.world⟩ := by
  have focused : step session.context.maxDepth form { session with loading := 0 } =
      (Eval.eval session.context e session.serial).bind fun pair =>
        .done (pair.1, { session with loading := 0, serial := pair.2 }) := by
    rw [step_of_expression kind]
    rfl
  rw [runForm_eq, focused, Interaction.play_bind, Interaction.play_bind]
  simp only [Bridge.play, List.append_nil]

theorem outcomeOf_eq_value_iff {result : Except Stop Value} {v : Value} :
    outcomeOf result = .value v ↔ result = .ok v := by
  rcases result with (f | payload) | w <;> simp [outcomeOf]

section Playing

variable {ω : Type} {bridge : Bridge ω} {world : ω} {session : Session} {path : String}
  {e : Value}

/-- Saving that succeeds is one write of the program's text. -/
theorem exists_content_of_saving
    {v : Value} (kept : session.context.Keeps [.put, .showValue])
    (succeeds : (bridge.play world (session.runForm (saving path e))).result.1 = .value v) :
    ∃ content written, Datum.showValue e = .ok content ∧
      bridge.perform (.write path content .truncate) world = (.value v, written) ∧
      bridge.play world (session.runForm (saving path e)) =
        ⟨[⟨.write path content .truncate, .value v⟩],
          (.value v, { session with loading := 0 }), written⟩ := by
  have own : TopLevelForm.ofValue (saving path e) = .expression (saving path e) := rfl
  rw [play_runForm_of_expression own] at succeeds ⊢
  have ended := outcomeOf_eq_value_iff.mp succeeds
  have alike : bridge.play world (save path e session.serial) =
      bridge.play world (Eval.eval session.context (saving path e) session.serial) := by
    apply (follows_saving kept path e).play_eq
    intro stop stopped
    cases ended.symm.trans stopped
  have trace := Interaction.path_play bridge world (save path e session.serial)
  have answers := Interaction.answers_play bridge world (save path e session.serial)
  rw [alike] at trace answers
  generalize bridge.play world (Eval.eval session.context (saving path e) session.serial) =
    played at ended trace answers
  obtain ⟨exchanges, ⟨result, serial⟩, written⟩ := played
  cases ended
  obtain ⟨content, shown, rfl, rfl⟩ := exists_written_of_save trace
  cases answers with
  | cons performed rest =>
      cases rest
      exact ⟨content, written, shown, performed, rfl⟩

theorem play_restoring
    {content : String} {given : ω} (readable : Datum.read content = .ok e)
    (kept : session.context.Keeps [.slurp, .parseText, .evalValue])
    (answers : Interaction.Answers bridge world (served path content) given)
    (finished : ∀ limit, (bridge.play world (session.runForm (restoring path))).result.1 ≠
      .fault (.recursionLimit limit)) :
    bridge.play world (session.runForm (restoring path)) =
      let original := bridge.play given (Eval.eval session.context e session.serial)
      ⟨served path content ++ original.exchanges,
        (outcomeOf original.result.1,
          { session with loading := 0, serial := original.result.2 }),
        original.world⟩ := by
  have own : TopLevelForm.ofValue (restoring path) = .expression (restoring path) := rfl
  rw [play_runForm_of_expression own] at finished ⊢
  have alike :
      bridge.play world ((restored path >>= Eval.eval session.context) session.serial) =
        bridge.play world (Eval.eval session.context (restoring path) session.serial) := by
    apply (follows_restoring kept path).play_eq
    intro stop stopped excuse
    obtain ⟨limit, rfl⟩ := excuse
    exact finished limit (congrArg outcomeOf stopped)
  rw [(trace_restored readable session.serial).play_bind answers] at alike
  simp only [← alike]

end Playing

/-- A program that has been saved on a bridge that stores the file has a text there that
reads as the program, and nothing else has changed.  When it is restored, in whatever
session and world, then unless that ends in a report of the limit the file is asked for,
and what follows is what the program itself does in the session's context: the same
exchanges, to the same result. -/
theorem runs_as_saved
    {ω : Type} {bridge : Bridge ω} {world : ω} {session : Session} {path : String}
    {e v : Value} (stores : bridge.StoresAt path world)
    (kept : session.context.Keeps [.put, .showValue])
    (succeeds : (bridge.play world (session.runForm (saving path e))).result.1 = .value v) :
    let saved := bridge.play world (session.runForm (saving path e))
    ∃ content, Datum.read content = .ok e ∧
      saved.exchanges = [⟨.write path content .truncate, .value (.string content)⟩] ∧
      saved.result = (.value (.string content), { session with loading := 0 }) ∧
      ∀ (later : Session) (now : ω),
        bridge.Unwritten path saved.world now →
        later.context.Keeps [.slurp, .parseText, .evalValue] →
        let restored := bridge.play now (later.runForm (restoring path))
        (∀ limit, restored.result.1 ≠ .fault (.recursionLimit limit)) →
          let probed := (bridge.perform (.probe path) now).2
          let given := (bridge.perform (.read path) probed).2
          let original := bridge.play given (Eval.eval later.context e later.serial)
          restored.exchanges =
              [⟨.probe path, .value (.bool true)⟩, ⟨.read path, .value (.string content)⟩] ++
                original.exchanges ∧
            restored.result =
              (outcomeOf original.result.1,
                { later with loading := 0, serial := original.result.2 }) ∧
            restored.world = original.world := by
  intro saved
  obtain ⟨content, written, shown, performed, played⟩ :=
    exists_content_of_saving kept succeeds
  obtain ⟨rfl, held⟩ := stores content v written performed
  have readable := Datum.read_of_showValue shown
  have outcome : saved = _ := played
  rw [outcome]
  refine ⟨content, readable, rfl, rfl, ?_⟩
  intro later now unwritten kept_later restored finished probed given original
  have found := (held now unwritten).1
  have read := (held probed (unwritten.next nofun)).2
  have answers : Interaction.Answers bridge now (served path content) given :=
    .cons (Prod.ext found rfl) (.cons (Prod.ext read rfl) (.nil given))
  have played_later : restored = _ :=
    play_restoring readable kept_later answers finished
  rw [played_later]
  exact ⟨rfl, rfl, rfl⟩

/-- A program that writes to another file and ends in a function. -/
theorem runs_as_saved_lambda :
    let session := start .root 0
    let e : Value :=
      .list [.symbol "begin", .list [.symbol "put", .string "q", .string "v"],
        .list [.symbol "lambda", .list [.symbol "x"], .symbol "x"]]
    let content := "(begin (put \"q\" \"v\") (lambda (x) x))"
    let saved := Memory.bridge.play ⟨[], [], [], []⟩ (session.runForm (saving "p" e))
    let restored := Memory.bridge.play saved.world (session.runForm (restoring "p"))
    saved.result.1 = .value (.string content) ∧ Datum.read content = .ok e ∧
      restored.exchanges =
        [⟨.probe "p", .value (.bool true)⟩, ⟨.read "p", .value (.string content)⟩,
          ⟨.write "q" "v" .truncate, .value (.string "v")⟩] ∧
      restored.result =
        (.value (.callable (.lambda ⟨0, ["x"], [.symbol "x"], .empty⟩)), start .root 1) := by
  intro session e content saved restored
  have succeeds : saved.result.1 = .value (.string content) := by with_unfolding_all rfl
  have ended : restored.result.1 =
      .value (.callable (.lambda ⟨0, ["x"], [.symbol "x"], .empty⟩)) := by
    simp only [restored, saved, session, e]
    with_unfolding_all rfl
  obtain ⟨written, readable, -, result, later⟩ :=
    runs_as_saved (Memory.storesAt_of_free rfl "p") (Context.keeps_root _) succeeds
  have same := congrArg Prod.fst result
  rw [succeeds] at same
  injection same with same
  injection same with same
  subst same
  have alike := later session saved.world (.refl _) (Context.keeps_root _) (by
    intro limit stopped
    cases ended.symm.trans stopped)
  obtain ⟨exchanges, result_later, -⟩ := alike
  refine ⟨succeeds, readable, exchanges.trans ?_, result_later.trans ?_⟩
  · simp only [saved, session, e]
    with_unfolding_all rfl
  · simp only [saved, session, e]
    with_unfolding_all rfl

end Session

end EffectLisp
