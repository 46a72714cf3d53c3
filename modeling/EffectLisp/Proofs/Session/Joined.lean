import EffectLisp.Proofs.Datum.Division
import EffectLisp.Proofs.Effect.Path
import EffectLisp.Session

/-!
# Programs run in turn

Forms in a row run like the forms of the first part and then those of the second, from
the session that the first part leaves behind, whatever became of its forms.  Since texts
that are joined by a line feed are read one after the other, they run so too.
-/

namespace EffectLisp

namespace Session

theorem runForms_append (session : Session) (front back : List Value) :
    session.runForms (front ++ back) = (do
      let (outcomes, middle) ← session.runForms front
      let (others, final) ← middle.runForms back
      pure (outcomes ++ others, final)) := by
  induction front generalizing session with
  | nil =>
      have whole := bind_pure (session.runForms back)
      exact whole.symm
  | cons form front induction =>
      simp only [List.cons_append, runForms, induction, bind_assoc, pure_bind]

theorem run_of_readAll
    {source : String} {forms : List Value} (readable : Datum.readAll source = .ok forms)
    (session : Session) : session.run source = session.runForms forms := by
  rw [run, readable]

/-- Run texts in turn, whatever becomes of their forms. -/
def runAll (session : Session) : List String → Interaction (List Outcome × Session)
  | [] => pure ([], session)
  | source :: sources => do
      let (outcomes, session) ← session.run source
      let (others, session) ← session.runAll sources
      pure (outcomes ++ others, session)

theorem runAll_of_reads
    {sources : List String} {parts : List (List Value)}
    (reads : sources.map Datum.readAll = parts.map .ok) (session : Session) :
    session.runAll sources = session.runForms parts.flatten := by
  induction sources generalizing parts session with
  | nil =>
      obtain rfl := List.map_eq_nil_iff.mp reads.symm
      rfl
  | cons source sources induction =>
      obtain ⟨forms, rest, rfl, readable, later⟩ := List.map_eq_cons_iff.mp reads.symm
      simp only [runAll, run_of_readAll readable.symm, List.flatten_cons, runForms_append,
        induction later.symm]

/-- Texts that can be read, joined by a line feed, are read as the data of the first and
then those of the second.  They run like the first and then, from the session and the
world that it leaves behind, the second: by the same exchanges, to the outcomes of both,
and to the last session of the second. -/
theorem run_append_line
    {a b : String} {vs ws : List Value} (readFirst : Datum.readAll a = .ok vs)
    (readSecond : Datum.readAll b = .ok ws) (session : Session) :
    Datum.readAll (a ++ "\n" ++ b) = .ok (vs ++ ws) ∧
      session.run (a ++ "\n" ++ b) = (do
        let (outcomes, middle) ← session.run a
        let (others, final) ← middle.run b
        pure (outcomes ++ others, final)) ∧
      ∀ {σ : Type} (bridge : Bridge σ) (world : σ),
        let first := bridge.play world (session.run a)
        let second := bridge.play first.world (first.result.2.run b)
        bridge.play world (session.run (a ++ "\n" ++ b)) =
          ⟨first.exchanges ++ second.exchanges,
            (first.result.1 ++ second.result.1, second.result.2), second.world⟩ := by
  have joined := Datum.readAll_append_line readFirst readSecond
  have inTurn : session.run (a ++ "\n" ++ b) = (session.run a).bind fun first =>
      (first.2.run b).bind fun second => .done (first.1 ++ second.1, second.2) := by
    simp only [run_of_readAll joined, run_of_readAll readFirst, run_of_readAll readSecond]
    exact runForms_append session vs ws
  refine ⟨joined, inTurn, ?_⟩
  intro σ bridge world first second
  rw [inTurn, Interaction.play_bind, Interaction.play_bind]
  simp [Bridge.play, first, second]

/-- A first text that ends in a comment, and in which the bridge breaks down and a name is
not bound. -/
theorem run_append_line_comment :
    let a := "(slurp \"f\") x ; y"
    let b := "'z"
    Datum.readAll a = .ok [.list [.symbol "slurp", .string "f"], .symbol "x"] ∧
      Datum.readAll b = .ok [Datum.quoted (.symbol "z")] ∧
      Datum.readAll (a ++ "\n" ++ b) =
        .ok ([.list [.symbol "slurp", .string "f"], .symbol "x"] ++
          [Datum.quoted (.symbol "z")]) ∧
      Interaction.prepared.play [.panic .other] ((start .root 0).run (a ++ "\n" ++ b)) =
        ⟨[⟨.probe "f", .panic .other⟩],
          ([.fault (.panicked .other), .fault (.unbound "x"), .value (.symbol "z")],
            start .root 0), []⟩ := by
  intro a b
  have readFirst : Datum.readAll a =
      .ok [.list [.symbol "slurp", .string "f"], .symbol "x"] :=
    Datum.readAll_eq_ok_iff.mpr
      ⟨[⟨.opening, 0⟩, ⟨.atom "slurp", 1⟩, ⟨.literal "f", 7⟩, ⟨.closing, 10⟩,
          ⟨.atom "x", 12⟩],
        eq_ok_of_toOption (by decide +kernel), Datum.parseAll_eq_ok_iff.mp rfl⟩
  have readSecond : Datum.readAll b = .ok [Datum.quoted (.symbol "z")] :=
    Datum.readAll_eq_ok_iff.mpr
      ⟨[⟨.quoteMark, 0⟩, ⟨.atom "z", 1⟩],
        eq_ok_of_toOption (by decide +kernel), Datum.parseAll_eq_ok_iff.mp rfl⟩
  obtain ⟨joined, -, played⟩ := run_append_line readFirst readSecond (start .root 0)
  refine ⟨readFirst, readSecond, joined, ?_⟩
  rw [played, run_of_readAll readFirst]
  simp only [run_of_readAll readSecond]
  with_unfolding_all rfl

end Session

end EffectLisp
