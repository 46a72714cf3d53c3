import EffectLisp.Proofs.Datum.Grammar
import EffectLisp.Proofs.Session.History
import EffectLisp.Proofs.Session.LastExchange

/-!
# The file of a load

A load has its forms from the text that `slurp` gives for its operand, and from nowhere
else.  As long as `slurp` is the primitive of that name, this asks whether the file exists
and then for the text.
-/

namespace EffectLisp

open Run (Trace)

namespace Session

/-- The exchanges of a load that gets the text of its file. -/
def served (path text : String) : List Exchange :=
  [⟨.probe path, .value (.bool true)⟩, ⟨.read path, .value (.string text)⟩]

/-- The name `slurp` stands for the primitive. -/
def Slurps (context : Context) : Prop :=
  context.find? "slurp" = some (.callable (.primitive .slurp))

theorem apply_slurp (context : Context) (v : Value) :
    Eval.apply context (.primitive .slurp) [v] = Primitive.run .slurp [v] := by
  rw [Eval.apply]
  · rfl
  · intro closure same
    cases same

theorem trace_readFile_iff
    {path : String} {v : Value} {serial final : Nat} {exchanges : List Exchange} :
    Trace (Primitive.readFile path) serial exchanges (.ok v) final ↔
      exchanges = [⟨.probe path, .value (.bool true)⟩, ⟨.read path, .value v⟩] ∧
        final = serial := by
  unfold Primitive.readFile
  constructor
  · intro trace
    rcases Run.trace_bind_iff.mp trace with
      ⟨found, middle, front, back, rfl, asked, later⟩ | ⟨stop, impossible, _⟩
    · obtain ⟨reply, rfl, rfl, result⟩ := Primitive.trace_probe_iff.mp asked
      cases found with
      | false => cases (Run.trace_fail_iff.mp later).2.1
      | true =>
          obtain ⟨answer, rfl, given, rfl⟩ := Run.trace_perform_iff.mp later
          cases answer with
          | value w =>
              cases given
              refine ⟨?_, rfl⟩
              rcases reply with w | f | payload
              · cases w <;> cases result
                rfl
              · cases result
              · cases result
          | fault => cases given
          | panic => cases given
    · cases impossible
  · rintro ⟨rfl, rfl⟩
    refine Run.trace_bind_iff.mpr (.inl ⟨true, final, [_], [_], rfl, ?_, ?_⟩)
    · exact Primitive.trace_probe_iff.mpr ⟨_, rfl, rfl, rfl⟩
    · exact Run.trace_perform_iff.mpr ⟨_, rfl, rfl, rfl⟩

theorem trace_slurp_iff
    {v w : Value} {serial final : Nat} {exchanges : List Exchange} :
    Trace (Primitive.run .slurp [v]) serial exchanges (.ok w) final ↔
      ∃ path, v = .string path ∧
        exchanges = [⟨.probe path, .value (.bool true)⟩, ⟨.read path, .value w⟩] ∧
          final = serial := by
  constructor
  · intro trace
    rcases Run.trace_bind_iff.mp trace with
      ⟨path, middle, front, back, rfl, shaped, later⟩ | ⟨stop, impossible, _⟩
    · cases v with
      | string text =>
          obtain ⟨rfl, same, rfl⟩ := Run.trace_pure_iff.mp shaped
          cases same
          exact ⟨_, rfl, trace_readFile_iff.mp later⟩
      | _ => cases (Run.trace_fail_iff.mp shaped).2.1
    · cases impossible
  · rintro ⟨path, rfl, asked⟩
    refine Run.trace_bind_iff.mpr (.inl ⟨path, serial, [], exchanges, rfl, ?_, ?_⟩)
    · exact Run.trace_pure_iff.mpr ⟨rfl, rfl, rfl⟩
    · exact trace_readFile_iff.mpr asked

theorem trace_eval_string_iff
    {context : Context} {text : String} {serial final : Nat} {exchanges : List Exchange}
    {result : Except Stop Value} :
    Trace (Eval.eval context (.string text)) serial exchanges result final ↔
      exchanges = [] ∧ result = .ok (.string text) ∧ final = serial := by
  rw [Eval.eval]
  · exact Run.trace_pure_iff
  · intro name same
    cases same
  · intro head operands same
    cases same

/-- The text of a file is what `slurp` gives for what the operand comes to. -/
theorem trace_fileText_iff
    {context : Context} {e : Value} {text : String} {serial final : Nat}
    {exchanges : List Exchange} :
    Trace (fileText context [e]) serial exchanges (.ok text) final ↔
      ∃ v slurp front back middle,
        exchanges = front ++ back ∧ context.find? "slurp" = some (.callable slurp) ∧
          Trace (Eval.eval context e) serial front (.ok v) middle ∧
          Trace (Eval.apply context slurp [v]) middle back (.ok (.string text)) final := by
  constructor
  · intro trace
    rcases Run.trace_bind_iff.mp trace with
      ⟨v, middle, front, back, rfl, evaluated, later⟩ | ⟨stop, impossible, _⟩
    · cases bound : context.find? "slurp" with
      | none =>
          rw [bound] at later
          cases (Run.trace_fail_iff.mp later).2.1
      | some slurp =>
          rw [bound] at later
          cases slurp with
          | callable slurp =>
              rcases Run.trace_bind_iff.mp later with
                ⟨w, last, asked, rest, rfl, slurped, given⟩ | ⟨stop, impossible, _⟩
              · cases w with
                | string content =>
                    obtain ⟨rfl, same, rfl⟩ := Run.trace_pure_iff.mp given
                    cases same
                    rw [List.append_nil]
                    exact ⟨v, slurp, front, asked, middle, rfl, rfl, evaluated, slurped⟩
                | _ => cases (Run.trace_fail_iff.mp given).2.1
              · cases impossible
          | _ => cases (Run.trace_fail_iff.mp later).2.1
    · cases impossible
  · rintro ⟨v, slurp, front, back, middle, rfl, bound, evaluated, slurped⟩
    refine Run.trace_bind_iff.mpr (.inl ⟨v, middle, front, back, rfl, evaluated, ?_⟩)
    rw [bound]
    exact Run.trace_bind_iff.mpr
      (.inl ⟨.string text, final, back, [], (List.append_nil _).symm, slurped,
        Run.trace_pure_iff.mpr ⟨rfl, rfl, rfl⟩⟩)

section Forms

variable {session final : Session} {e : Value} {exchanges : List Exchange}

/-- The forms of a file that is there, or why there are none. -/
theorem trace_loadedForms_string
    (slurps : Slurps session.context) {path text : String} :
    Trace (loadedForms [.string path]) session (served path text)
      ((Datum.readAll text).mapError .fault) session := by
  have evaluated : Trace (Eval.eval session.context (.string path)) session.serial []
      (.ok (.string path)) session.serial := trace_eval_string_iff.mpr ⟨rfl, rfl, rfl⟩
  have slurped : Trace (Eval.apply session.context (.primitive .slurp) [.string path])
      session.serial (served path text) (.ok (.string text)) session.serial := by
    rw [apply_slurp]
    exact trace_slurp_iff.mpr ⟨path, rfl, rfl, rfl⟩
  refine Run.trace_bind_iff.mpr
    (.inl ⟨text, session, _, [], (List.append_nil _).symm, ?_, ?_⟩)
  · refine trace_inContext_iff.mpr ⟨session.serial, ?_, rfl⟩
    exact trace_fileText_iff.mpr ⟨_, _, _, _, _, rfl, slurps, evaluated, slurped⟩
  · exact Run.trace_ofExcept_iff.mpr ⟨rfl, rfl, rfl⟩

theorem trace_forms_string
    (slurps : Slurps session.context) {path text : String} {forms : List Value}
    (readable : Datum.readAll text = .ok forms) :
    Trace (loadedForms [.string path]) session (served path text) (.ok forms) session := by
  have trace : Trace (loadedForms [.string path]) session (served path text) _ session :=
    trace_loadedForms_string slurps
  rwa [readable] at trace

/-- By these exchanges `slurp`, whatever it is bound to, gives the text for a file. -/
def Slurped (context : Context) (file : Value) (exchanges : List Exchange) (text : String) :
    Prop :=
  ∃ slurp serial final,
    context.find? "slurp" = some (.callable slurp) ∧
      Trace (Eval.apply context slurp [file]) serial exchanges (.ok (.string text)) final

theorem exists_slurped_of_loadedForms
    {forms : List Value} (trace : Trace (loadedForms [e]) session exchanges (.ok forms) final) :
    ∃ file text front back serial,
      exchanges = front ++ back ∧ Slurped session.context file back text ∧
        Datum.readAll text = .ok forms ∧
        Trace (Eval.eval session.context e) session.serial front (.ok file) serial := by
  rcases Run.trace_bind_iff.mp trace with
    ⟨text, middle, front, back, rfl, first, later⟩ | ⟨stop, impossible, _⟩
  · obtain ⟨last, given, -⟩ := trace_inContext_iff.mp first
    obtain ⟨file, slurp, asked, answered, serial, rfl, bound, evaluated, slurped⟩ :=
      trace_fileText_iff.mp given
    obtain ⟨rfl, read, -⟩ := Run.trace_ofExcept_iff.mp later
    rw [List.append_nil]
    exact ⟨file, text, asked, answered, serial, rfl, ⟨slurp, serial, last, bound, slurped⟩,
      mapError_eq_ok_iff.mp read.symm, evaluated⟩
  · cases impossible

end Forms

end Session

end EffectLisp
