import EffectLisp.Proofs.Session.File
import EffectLisp.Proofs.Session.Unwinding

/-!
# Loads within loads

The counter of a session is the number of loads in progress at every moment of a step, and
every step comes to an end whatever files it loads.  If the files load each other in a
cycle it ends in a fault: at each moment a load of one of the files is still to run.
-/

namespace EffectLisp.Session

open Interaction (Path)
open Run (Trace)

section Cycles

/-- A form that in these contexts and within these exchanges loads nothing but one of the
files. -/
def LoadsOneOf (contexts : Context → Prop) (exchanges : List Exchange)
    (files : Value → Prop) (form : Value) : Prop :=
  ∃ e, form = .list [.symbol "load", e] ∧
    ∀ {context serial asked file last},
      contexts context → asked <:+: exchanges →
        Trace (Eval.eval context e) serial asked (.ok file) last → files file

/-- Whenever in these contexts and within these exchanges `slurp` gives the text of one of
the files, and the text can be read, one of its forms loads one of the files. -/
def Cyclic (contexts : Context → Prop) (exchanges : List Exchange) (files : Value → Prop) :
    Prop :=
  ∀ {context file asked text forms},
    contexts context → files file → asked <:+: exchanges → Slurped context file asked text →
      Datum.readAll text = .ok forms →
        ∃ form ∈ forms, LoadsOneOf contexts exchanges files form

/-- A form of a kind is still to run, or the step has failed. -/
inductive Owes (due : Value → Prop) : Moment → Prop where
  | form {session : Session} {loads : List (List Value)} {form : Value} :
      due form → Owes due ⟨session, loads, .form form⟩
  | file {session : Session} {loads : List (List Value)} {operands : List Value} :
      due (.list (.symbol "load" :: operands)) → Owes due ⟨session, loads, .file operands⟩
  | waiting {session : Session} {loads : List (List Value)} {doing : Doing}
      {forms : List Value} {form : Value} :
      forms ∈ loads → form ∈ forms → due form → Owes due ⟨session, loads, doing⟩
  | failed {session : Session} {loads : List (List Value)} {stop : Stop} :
      Owes due ⟨session, loads, .ended (.error stop)⟩

variable {contexts : Context → Prop} {files : Value → Prop}

theorem Next.owes
    {moment later : Moment} {exchanges whole : List Exchange}
    (next : Next moment exchanges later) (part : exchanges <:+: whole)
    (here : contexts moment.session.context) (cyclic : Cyclic contexts whole files)
    (owes : Owes (LoadsOneOf contexts whole files) moment) :
    Owes (LoadsOneOf contexts whole files) later := by
  cases next with
  | expression kind =>
      cases owes with
      | form due =>
          obtain ⟨e, rfl, -⟩ := due
          cases kind
      | waiting waits member due => exact .waiting waits member due
  | define kind =>
      cases owes with
      | form due =>
          obtain ⟨e, rfl, -⟩ := due
          cases kind
      | waiting waits member due => exact .waiting waits member due
  | refuse => exact .failed
  | enter kind =>
      cases ofValue_eq_load_iff.mp kind
      cases owes with
      | form due => exact .file due
      | waiting waits member due => exact .waiting waits member due
  | @read _ _ _ _ _ result trace =>
      cases result with
      | error stop => exact .failed
      | ok forms =>
          cases owes with
          | file due =>
              obtain ⟨e, same, targets⟩ := due
              cases same
              obtain ⟨file, text, front, back, serial, rfl, slurped, readable, evaluated⟩ :=
                exists_slurped_of_loadedForms trace
              have before := (List.prefix_append front back).isInfix.trans part
              have after := (List.suffix_append front back).isInfix.trans part
              obtain ⟨form, member, due⟩ :=
                cyclic here (targets here before evaluated) after slurped readable
              exact .waiting List.mem_cons_self member due
          | waiting waits member due =>
              exact .waiting (List.mem_cons_of_mem _ waits) member due
  | goOn =>
      cases owes with
      | waiting waits member due =>
          rcases List.mem_cons.mp waits with rfl | waits
          · rcases List.mem_cons.mp member with rfl | member
            · exact .form due
            · exact .waiting List.mem_cons_self member due
          · exact .waiting (List.mem_cons_of_mem _ waits) member due
  | leave =>
      cases owes with
      | waiting waits member due =>
          rcases List.mem_cons.mp waits with rfl | waits
          · cases member
          · exact .waiting waits member due
  | abandon => exact .failed

theorem Leads.owes
    {moment last : Moment} {exchanges whole : List Exchange}
    (leads : Leads moment exchanges last) (part : exchanges <:+: whole)
    (passes : ∀ front middle, front <+: exchanges → Leads moment front middle →
      contexts middle.session.context)
    (cyclic : Cyclic contexts whole files)
    (owes : Owes (LoadsOneOf contexts whole files) moment) :
    Owes (LoadsOneOf contexts whole files) last := by
  induction leads with
  | here => exact owes
  | @next moment following last front back next _ induction =>
      have before := (List.prefix_append front back).isInfix.trans part
      have after := (List.suffix_append front back).isInfix.trans part
      have here := passes [] moment List.nil_prefix (.here moment)
      apply induction after
      · intro between middle begins leads
        exact passes _ middle ((List.prefix_append_right_inj front).mpr begins)
          (.next next leads)
      · exact next.owes before here cyclic owes

/-- The contexts in which a form is, while it runs with these exchanges. -/
def Passes (session : Session) (form : Value) (exchanges : List Exchange)
    (context : Context) : Prop :=
  ∃ front moment,
    front <+: exchanges ∧ Leads (.start session form) front moment ∧
      context = moment.session.context

theorem isFault_of_cyclic
    {session final : Session} {form : Value} {exchanges : List Exchange} {outcome : Outcome}
    (path : Path (session.runForm form) exchanges (outcome, final))
    (cyclic : Cyclic (Passes session form exchanges) exchanges files)
    (loads : LoadsOneOf (Passes session form exchanges) exchanges files form) :
    outcome.isFault = true := by
  obtain ⟨remaining, result, leads, ended, rfl⟩ := path_runForm_iff_leads.mp path
  have owes := leads.owes (List.infix_refl exchanges)
    (fun front middle begins leads => ⟨front, middle, begins, leads, rfl⟩)
    cyclic (.form loads)
  cases result with
  | ok v =>
      rcases ended with rfl | ⟨payload, impossible⟩
      · cases owes with
        | waiting waits => cases waits
      · cases impossible
  | error stop => cases stop <;> rfl

/-- A form that is a load with such operands. -/
def IsLoadOf (due : List Value → Prop) (form : Value) : Prop :=
  ∃ operands, form = .list (.symbol "load" :: operands) ∧ due operands

/-- In the context nothing is run, or still to run, but such loads. -/
structure Moment.OnlyLoads (context : Context) (due : List Value → Prop) (moment : Moment) :
    Prop where
  context : moment.session.context = context
  waiting : ∀ forms ∈ moment.loads, ∀ form ∈ forms, IsLoadOf due form
  doing :
    match moment.doing with
    | .form form => IsLoadOf due form
    | .file operands => due operands
    | .ended _ => True

/-- Loads of files in which there are only loads bind nothing. -/
theorem Next.onlyLoads
    {context : Context} {due : List Value → Prop} {moment later : Moment}
    {exchanges : List Exchange} (next : Next moment exchanges later)
    (reads : ∀ {session operands forms final},
      session.context = context → due operands →
        Trace (loadedForms operands) session exchanges (.ok forms) final →
          ∀ form ∈ forms, IsLoadOf due form)
    (only : moment.OnlyLoads context due) : later.OnlyLoads context due := by
  obtain ⟨same, waiting, doing⟩ := only
  cases next with
  | expression kind =>
      obtain ⟨operands, rfl, -⟩ := doing
      cases kind
  | define kind =>
      obtain ⟨operands, rfl, -⟩ := doing
      cases kind
  | refuse => exact ⟨same, waiting, trivial⟩
  | enter kind =>
      obtain ⟨operands, rfl, due⟩ := doing
      cases kind
      exact ⟨same, waiting, due⟩
  | @read _ _ _ _ _ result trace =>
      have unchanged := (context_of_loadedForms trace).trans same
      cases result with
      | error stop =>
          refine ⟨unchanged, ?_, trivial⟩
          exact List.forall_mem_cons.mpr ⟨List.forall_mem_nil _, waiting⟩
      | ok forms =>
          refine ⟨unchanged, ?_, trivial⟩
          exact List.forall_mem_cons.mpr ⟨reads same doing trace, waiting⟩
  | goOn =>
      obtain ⟨first, others⟩ := List.forall_mem_cons.mp waiting
      obtain ⟨now, later⟩ := List.forall_mem_cons.mp first
      exact ⟨same, List.forall_mem_cons.mpr ⟨later, others⟩, now⟩
  | leave => exact ⟨same, (List.forall_mem_cons.mp waiting).2, trivial⟩
  | abandon => exact ⟨same, (List.forall_mem_cons.mp waiting).2, trivial⟩

theorem Leads.onlyLoads
    {context : Context} {due : List Value → Prop} {moment last : Moment}
    {exchanges whole : List Exchange} (leads : Leads moment exchanges last)
    (part : exchanges <:+: whole)
    (reads : ∀ {session operands asked forms final},
      asked <:+: whole → session.context = context → due operands →
        Trace (loadedForms operands) session asked (.ok forms) final →
          ∀ form ∈ forms, IsLoadOf due form)
    (only : moment.OnlyLoads context due) : last.OnlyLoads context due := by
  induction leads with
  | here => exact only
  | @next moment following last front back next _ induction =>
      have before := (List.prefix_append front back).isInfix.trans part
      have after := (List.suffix_append front back).isInfix.trans part
      exact induction after (next.onlyLoads (reads before) only)

section Itself

variable {session : Session} {file : String} {exchanges : List Exchange}

theorem loadsOneOf_itself (contexts : Context → Prop) :
    LoadsOneOf contexts exchanges (· = .string file)
      (.list [.symbol "load", .string file]) := by
  refine ⟨_, rfl, ?_⟩
  intro context serial asked given last _ _ evaluated
  obtain ⟨-, same, -⟩ := trace_eval_string_iff.mp evaluated
  cases same
  rfl

theorem readAll_of_slurped
    (slurps : Slurps session.context)
    (serves : ∀ text, ⟨.read file, .value (.string text)⟩ ∈ exchanges →
      Datum.readAll text = .ok [.list [.symbol "load", .string file]])
    {asked : List Exchange} {text : String} (part : asked <:+: exchanges)
    (slurped : Slurped session.context (.string file) asked text) :
    Datum.readAll text = .ok [.list [.symbol "load", .string file]] := by
  obtain ⟨callable, serial, final, bound, trace⟩ := slurped
  cases slurps.symm.trans bound
  rw [apply_slurp] at trace
  obtain ⟨path, same, rfl, -⟩ := trace_slurp_iff.mp trace
  cases same
  exact serves text (part.subset (List.mem_cons_of_mem _ List.mem_cons_self))

/-- A load of a file in which there is but the load of the file itself binds nothing. -/
theorem context_eq_of_passes_itself
    (slurps : Slurps session.context)
    (serves : ∀ text, ⟨.read file, .value (.string text)⟩ ∈ exchanges →
      Datum.readAll text = .ok [.list [.symbol "load", .string file]])
    {context : Context}
    (passes : Passes session (.list [.symbol "load", .string file]) exchanges context) :
    context = session.context := by
  obtain ⟨front, moment, begins, leads, rfl⟩ := passes
  have start : (Moment.start session (.list [.symbol "load", .string file])).OnlyLoads
      session.context (· = [.string file]) := ⟨rfl, nofun, _, rfl, rfl⟩
  refine (leads.onlyLoads begins.isInfix ?_ start).context
  rintro current _ asked forms final part here rfl trace form member
  obtain ⟨given, text, front, back, serial, rfl, slurped, readable, evaluated⟩ :=
    exists_slurped_of_loadedForms trace
  obtain ⟨-, same, -⟩ := trace_eval_string_iff.mp evaluated
  cases same
  rw [here] at slurped
  have back_part := (List.suffix_append front back).isInfix.trans part
  cases (readAll_of_slurped slurps serves back_part slurped).symm.trans readable
  cases List.mem_singleton.mp member
  exact ⟨_, rfl, rfl⟩

theorem cyclic_itself
    (slurps : Slurps session.context)
    (serves : ∀ text, ⟨.read file, .value (.string text)⟩ ∈ exchanges →
      Datum.readAll text = .ok [.list [.symbol "load", .string file]]) :
    Cyclic (Passes session (.list [.symbol "load", .string file]) exchanges) exchanges
      (· = .string file) := by
  rintro context _ asked text forms passes rfl part slurped readable
  cases context_eq_of_passes_itself slurps serves passes
  cases (readAll_of_slurped slurps serves part slurped).symm.trans readable
  exact ⟨_, List.mem_cons_self, loadsOneOf_itself _⟩

end Itself

end Cycles

/-- At every moment of a step the counter of the session is the number of the loads in
progress, and a load is refused exactly when as many as the limit are in progress,
whatever went before.  What a form does is what these moments lead to, and they come to
an end: if the files load each other in a cycle, by a fault.  A form that runs to its end
leaves the counter at zero, one that a panic breaks off leaves it where it was; the next
form starts at zero in any case. -/
theorem loading_counts_loads (session : Session) (form : Value) :
    (∀ exchanges moment,
      Leads (.start session form) exchanges moment →
        moment.session.loading = moment.inProgress ∧
          moment.session.context.maxDepth = session.context.maxDepth ∧
          ∀ f operands,
            moment.doing = .form f → TopLevelForm.ofValue f = .load operands →
              ∀ more later,
                Next moment more later ↔
                  more = [] ∧
                    (moment.inProgress = session.context.maxDepth ∧
                        later = moment.refused ∨
                      moment.inProgress < session.context.maxDepth ∧
                        later = moment.entered operands)) ∧
      (∀ exchanges outcome final,
        Path (session.runForm form) exchanges (outcome, final) ↔
          ∃ loads result,
            Leads (.start session form) exchanges ⟨final, loads, .ended result⟩ ∧
              (loads = [] ∨ ∃ payload, result = .error (.panic payload)) ∧
              outcome = outcomeOf result) ∧
      (∀ room before f exchanges result after,
        Trace (step room f) before exchanges result after →
          (∀ payload, result ≠ .error (.panic payload)) → after.loading = before.loading) ∧
      Acc (fun later earlier => ∃ exchanges, Next earlier exchanges later)
        (.start session form) ∧
      (∀ exchanges outcome final (files : Value → Prop),
        Path (session.runForm form) exchanges (outcome, final) →
          Cyclic (Passes session form exchanges) exchanges files →
          LoadsOneOf (Passes session form exchanges) exchanges files form →
          outcome.isFault = true) ∧
      ∀ exchanges outcome final,
        Path (session.runForm form) exchanges (outcome, final) →
          ∀ other,
            final.runForm other = ({ final with loading := 0 } : Session).runForm other := by
  refine ⟨?_, ?_, ?_, Moment.finite_start session form, ?_, ?_⟩
  · intro exchanges moment leads
    have counted := leads.counted (Moment.counted_start session form)
    refine ⟨counted.loading, counted.limit, ?_⟩
    intro f operands doing kind more later
    exact counted.next_load_iff doing kind
  · intro exchanges outcome final
    exact path_runForm_iff_leads
  · intro room before f exchanges result after trace intact
    obtain ⟨definitions, ran⟩ := Ran.of_trace trace
    exact ran.loading_eq intact
  · intro exchanges outcome final files path cyclic loads
    exact isFault_of_cyclic path cyclic loads
  · intro exchanges outcome final path other
    rfl

/-- A file that loads itself, where two loads may be in progress. -/
theorem loading_counts_loads_cycle :
    let session := start (Context.root.withMaxDepth 2) 0
    let text := "(load \"f\")"
    ∃ outcome final,
      Path (session.runForm (.list [.symbol "load", .string "f"]))
          (served "f" text ++ served "f" text) (outcome, final) ∧
        outcome.isFault = true := by
  intro session text
  have slurps : Slurps session.context := rfl
  have reads : Datum.readAll text = .ok [.list [.symbol "load", .string "f"]] :=
    Datum.readAll_eq_ok_iff.mpr
      ⟨[⟨.opening, 0⟩, ⟨.atom "load", 1⟩, ⟨.literal "f", 6⟩, ⟨.closing, 9⟩],
        eq_ok_of_toOption (by decide +kernel), Datum.parseAll_eq_ok_iff.mp rfl⟩
  have serves (given : String)
      (member : ⟨.read "f", .value (.string given)⟩ ∈ served "f" text ++ served "f" text) :
      Datum.readAll given = .ok [.list [.symbol "load", .string "f"]] := by
    have same : given = text := by simpa [served] using member
    rw [same, reads]
  have slurps_inner : Slurps session.entered.context := slurps
  have slurps_innermost : Slurps session.entered.entered.context := slurps
  have inner : Ran 1 session.entered (.list [.symbol "load", .string "f"]) _ _ _ _ :=
    .loaded rfl (by decide) (trace_forms_string slurps_innermost reads)
      (.stop (.refused rfl (.inr rfl)))
  have outer : Ran 2 session (.list [.symbol "load", .string "f"]) _ _ _ _ :=
    .loaded rfl (by decide) (trace_forms_string slurps_inner reads) (.stop inner)
  have path : Path (session.runForm (.list [.symbol "load", .string "f"])) _ _ :=
    path_runForm_iff.mpr ⟨_, outer.trace, rfl⟩
  rw [List.append_nil] at path
  have faults := (loading_counts_loads session (.list [.symbol "load", .string "f"])).2.2.2.2.1
  exact ⟨_, _, path, faults _ _ _ _ path (cyclic_itself slurps serves) (loadsOneOf_itself _)⟩

end EffectLisp.Session
