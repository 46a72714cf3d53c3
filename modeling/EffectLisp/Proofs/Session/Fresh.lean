import EffectLisp.Proofs.Eval.Fresh
import EffectLisp.Proofs.Host.Files
import EffectLisp.Proofs.Session.Bindings

/-!
# Serial numbers in sessions

A session holds only lambdas whose numbers have been given out: a fresh one does, and
steps keep it so, as long as nothing else comes in with the forms and the replies.  The
forms of a text hold no lambda, so of texts nothing has to be known.
-/

namespace EffectLisp

open Interaction (Path)
open Run (Fresh Trace)

namespace Context

variable {serial : Nat} {ctx : Context}

theorem MadeBefore.define
    (before : ctx.MadeBefore serial) {v : Value} (value : v.MadeBefore serial)
    (name : String) : (ctx.define name v).MadeBefore serial := by
  refine ⟨?_, before.scope⟩
  have inserted (entries : List (String × Value))
      (each : ∀ entry ∈ entries, entry.2.MadeBefore serial) :
      ∀ entry ∈ Globals.insertInto name v entries, entry.2.MadeBefore serial := by
    fun_induction Globals.insertInto name v entries with
    | case1 => exact List.forall_mem_cons.mpr ⟨value, nofun⟩
    | case2 =>
        obtain ⟨-, rest⟩ := List.forall_mem_cons.mp each
        exact List.forall_mem_cons.mpr ⟨value, rest⟩
    | case3 _ _ _ induction =>
        obtain ⟨first, rest⟩ := List.forall_mem_cons.mp each
        exact List.forall_mem_cons.mpr ⟨first, induction rest⟩
  exact inserted ctx.globals.entries before.globals

/-- The primitives are no lambdas. -/
theorem madeBefore_root (serial : Nat) : root.MadeBefore serial where
  globals entry member := by
    obtain ⟨p, -, rfl⟩ := List.mem_map.mp member
    exact Value.madeBefore_primitive p
  scope frame around := absurd around List.not_mem_nil

end Context

/-- What comes last is good if it is so whatever came before. -/
theorem forall_run_bind
    {ω α β : Type} {first : StateM ω α} {next : α → StateM ω β} {good : β → Prop}
    (each : ∀ a after, good ((next a).run after).1) (world : ω) :
    good ((first >>= next).run world).1 :=
  each (first.run world).1 (first.run world).2

/-- What a host replies is a text or a truth value, or a fault about a path. -/
theorem Host.madeBefore_perform
    {ω : Type} (host : Host (StateM ω)) (effect : Effect) (world : ω) (serial : Nat) :
    (host.bridge.perform effect world).1.MadeBefore serial := by
  cases effect with
  | probe path => exact Value.madeBefore_bool _
  | read path =>
      refine forall_run_bind (fun result after => ?_) world
      cases result with
      | ok text => exact Value.madeBefore_string text
      | error error => trivial
  | write path content mode =>
      refine forall_run_bind (fun locked after => ?_) world
      cases locked with
      | true => trivial
      | false =>
          refine forall_run_bind (fun opened middle => ?_) after
          cases opened with
          | error error => trivial
          | ok handle =>
              refine forall_run_bind (fun result last => ?_) middle
              cases result with
              | error error => trivial
              | ok done => exact Value.madeBefore_string content
  | fetch url =>
      refine forall_run_bind (fun result after => ?_) world
      cases result with
      | ok text => exact Value.madeBefore_string text
      | error reason => trivial

theorem Datum.madeBefore_of_readAll
    {text : String} {forms : List Value} (result : readAll text = .ok forms)
    (serial : Nat) : ∀ form ∈ forms, form.MadeBefore serial := by
  intro form member
  obtain ⟨lexemes, lexed, derives⟩ := readAll_eq_ok_iff.mp result
  have each := derives.forall_writable (Token.wellSpelled_of_lex lexed)
  exact (each form member).madeBefore serial

namespace Session

/-- Every lambda of the session has a number before the next one. -/
def Numbered (session : Session) : Prop :=
  session.context.MadeBefore session.serial

/-- What a step leaves: the numbers go on, the session holds only lambdas that have
theirs, and a result is good at the time it is there. -/
structure Leaves {α : Type} (good : Nat → α → Prop) (serial : Nat)
    (result : Except Stop α) (final : Session) : Prop where
  le : serial ≤ final.serial
  numbered : final.Numbered
  good : ∀ a, result = .ok a → good final.serial a

namespace Leaves

variable {α β : Type} {good : Nat → α → Prop} {good' : Nat → β → Prop}
  {serial earlier : Nat} {result : Except Stop α} {final : Session}

theorem of_error
    {stop : Stop} (leaves : Leaves good serial (.error stop) final) :
    Leaves good' serial (.error stop) final :=
  ⟨leaves.le, leaves.numbered, nofun⟩

theorem since (leaves : Leaves good serial result final) (le : earlier ≤ serial) :
    Leaves good earlier result final :=
  ⟨Nat.le_trans le leaves.le, leaves.numbered, leaves.good⟩

theorem leave (leaves : Leaves good serial result final) :
    Leaves good serial result (Session.leave result final) := by
  have numbered : (Session.leave result final).Numbered := by
    rw [Numbered, context_leave, serial_leave]
    exact leaves.numbered
  refine ⟨?_, numbered, ?_⟩
  · rw [serial_leave]
    exact leaves.le
  · rw [serial_leave]
    exact leaves.good

end Leaves

theorem Numbered.entered {session : Session} (numbered : session.Numbered) :
    session.entered.Numbered :=
  numbered

theorem Numbered.bound
    {session : Session} (numbered : session.Numbered) {v : Value}
    (value : v.MadeBefore session.serial) (name : String) :
    (session.bound name v).Numbered :=
  Context.MadeBefore.define numbered value name

section Evaluations

variable {serial : Nat} {ctx : Context} {operands : List Value}

theorem fresh_definition
    (around : ctx.MadeBefore serial) (before : ∀ e ∈ operands, e.MadeBefore serial) :
    Fresh (fun n defined => defined.2.MadeBefore n) serial (definition ctx operands) := by
  unfold definition
  split
  · refine (Eval.fresh_eval around (before _ (by simp))).bind fun v later _ made => ?_
    exact .pure made
  · obtain ⟨-, body⟩ := List.forall_mem_cons.mp before
    split
    · refine (Eval.fresh_parameterNames "define" _).bind fun names later le _ => ?_
      have later_around := around.mono le
      refine (Eval.fresh_makeLambda names later_around.scope
        fun e member => (body e member).mono le).bind fun v last _ made => ?_
      exact .pure made
    · exact .fail _
  · exact .fail _

theorem fresh_fileText
    (around : ctx.MadeBefore serial) (before : ∀ e ∈ operands, e.MadeBefore serial) :
    Fresh (fun _ _ => True) serial (fileText ctx operands) := by
  unfold fileText
  split
  · refine (Eval.fresh_eval around (before _ (by simp))).bind fun path later le made => ?_
    split
    · exact .fail _
    · next slurp found =>
        have args : ∀ v ∈ [path], v.MadeBefore later := List.forall_mem_singleton.mpr made
        have applied := Eval.fresh_apply (around.mono le) ((around.find? found).mono le) args
        refine applied.bind fun text last _ _ => ?_
        split
        · exact .pure trivial
        · exact .fail _
    · exact .fail _
  · exact .fail _

end Evaluations

section Steps

variable {α : Type} {session final : Session} {exchanges : List Exchange}

theorem leaves_inContext
    {good : Nat → α → Prop} {evaluation : Context → Evaluation α} {result : Except Stop α}
    (fresh : Fresh good session.serial (evaluation session.context))
    (numbered : session.Numbered)
    (replies : ∀ exchange ∈ exchanges, exchange.reply.MadeBefore session.serial)
    (trace : Trace (inContext evaluation) session exchanges result final) :
    Leaves good session.serial result final := by
  obtain ⟨serial, inner, rfl⟩ := trace_inContext_iff.mp trace
  obtain ⟨le, holds⟩ := fresh exchanges result serial inner replies
  exact ⟨le, Context.MadeBefore.mono numbered le, holds⟩

theorem leaves_loadedForms
    {operands : List Value} {result : Except Stop (List Value)}
    (numbered : session.Numbered) (before : ∀ e ∈ operands, e.MadeBefore session.serial)
    (replies : ∀ exchange ∈ exchanges, exchange.reply.MadeBefore session.serial)
    (trace : Trace (loadedForms operands) session exchanges result final) :
    Leaves (fun n forms => ∀ form ∈ forms, form.MadeBefore n) session.serial result
      final := by
  have asks := fresh_fileText numbered before
  rcases Run.trace_bind_iff.mp trace with
    ⟨text, middle, front, back, rfl, first, later⟩ | ⟨stop, rfl, first⟩
  · obtain ⟨rfl, read, rfl⟩ := Run.trace_ofExcept_iff.mp later
    rw [List.append_nil] at replies
    have leaves := leaves_inContext asks numbered replies first
    refine ⟨leaves.le, leaves.numbered, ?_⟩
    rintro forms rfl
    exact Datum.madeBefore_of_readAll (mapError_eq_ok_iff.mp read.symm) _
  · exact (leaves_inContext asks numbered replies first).of_error

end Steps

theorem eq_of_ofValue_eq_expression
    {form e : Value} (kind : TopLevelForm.ofValue form = .expression e) : form = e := by
  unfold TopLevelForm.ofValue at kind
  split at kind
  · split at kind
    · cases kind
    · split at kind
      · cases kind
      · cases kind
        rfl
  · cases kind
    rfl

theorem forall_operands_madeBefore
    {serial : Nat} {name : String} {operands : List Value}
    (before : (Value.list (.symbol name :: operands)).MadeBefore serial) :
    ∀ e ∈ operands, e.MadeBefore serial :=
  (List.forall_mem_cons.mp (Value.madeBefore_list_iff.mp before)).2

mutual

/-- A step that starts with the numbers given out ends so. -/
theorem Ran.leaves
    {room : Nat} {session final : Session} {form : Value} {exchanges : List Exchange}
    {result : Except Stop Value} {definitions : List (String × Value)} :
    Ran room session form exchanges result final definitions →
      session.Numbered → form.MadeBefore session.serial →
      (∀ exchange ∈ exchanges, exchange.reply.MadeBefore session.serial) →
      Leaves (fun n v => v.MadeBefore n) session.serial result final
  | .expression kind path, numbered, before, replies => by
      cases eq_of_ofValue_eq_expression kind
      exact leaves_inContext (Eval.fresh_eval numbered before) numbered replies path
  | .defined kind path, numbered, before, replies => by
      cases ofValue_eq_define_iff.mp kind
      have defines := fresh_definition numbered (forall_operands_madeBefore before)
      have leaves := leaves_inContext defines numbered replies path
      refine ⟨leaves.le, leaves.numbered.bound (leaves.good _ rfl) _, ?_⟩
      rintro v ⟨⟩
      exact Value.madeBefore_symbol _
  | .undefined kind path, numbered, before, replies => by
      cases ofValue_eq_define_iff.mp kind
      have defines := fresh_definition numbered (forall_operands_madeBefore before)
      exact (leaves_inContext defines numbered replies path).of_error
  | .refused _ _, numbered, _, _ => ⟨Nat.le_refl _, numbered, nofun⟩
  | .unread kind _ path, numbered, before, replies => by
      cases ofValue_eq_load_iff.mp kind
      have operands := forall_operands_madeBefore before
      exact (leaves_loadedForms numbered.entered operands replies path).of_error.leave
  | .loaded kind _ path ranAll, numbered, before, replies => by
      cases ofValue_eq_load_iff.mp kind
      obtain ⟨front, back⟩ := List.forall_mem_append.mp replies
      have operands := forall_operands_madeBefore before
      have start := leaves_loadedForms numbered.entered operands front path
      have rest := ranAll.leaves start.numbered (Value.madeBefore_list_iff.mpr nofun)
        (start.good _ rfl) fun exchange member => (back exchange member).mono start.le
      exact (rest.since start.le).leave

theorem RanAll.leaves
    {room : Nat} {session final : Session} {exchanges : List Exchange}
    {result : Except Stop Value} {last : Value} {forms : List Value}
    {definitions : List (String × Value)} :
    RanAll room session last forms exchanges result final definitions →
      session.Numbered → last.MadeBefore session.serial →
      (∀ form ∈ forms, form.MadeBefore session.serial) →
      (∀ exchange ∈ exchanges, exchange.reply.MadeBefore session.serial) →
      Leaves (fun n v => v.MadeBefore n) session.serial result final
  | .nil, numbered, last_before, _, _ => by
      refine ⟨Nat.le_refl _, numbered, ?_⟩
      rintro v ⟨⟩
      exact last_before
  | .stop ran, numbered, _, before, replies =>
      ran.leaves numbered (before _ (by simp)) replies
  | .next ran others, numbered, _, before, replies => by
      obtain ⟨first, rest⟩ := List.forall_mem_cons.mp before
      obtain ⟨front, back⟩ := List.forall_mem_append.mp replies
      have middle := ran.leaves numbered first front
      have final := others.leaves middle.numbered (middle.good _ rfl)
        (fun form member => (rest form member).mono middle.le)
        (fun exchange member => (back exchange member).mono middle.le)
      exact final.since middle.le

end

section Forms

variable {session next : Session} {exchanges : List Exchange}

theorem leaves_of_runForm
    {form : Value} {outcome : Outcome} (numbered : session.Numbered)
    (before : form.MadeBefore session.serial)
    (replies : ∀ exchange ∈ exchanges, exchange.reply.MadeBefore session.serial)
    (path : Path (session.runForm form) exchanges (outcome, next)) :
    Leaves (fun n v => v.MadeBefore n) session.serial
      (outcome.toExcept.mapError .fault) next := by
  obtain ⟨result, definitions, ran, rfl, -⟩ := exists_ran_of_runForm path
  have leaves := ran.leaves numbered before replies
  refine ⟨leaves.le, leaves.numbered, ?_⟩
  intro v succeeded
  rcases result with (f | payload) | w
  · cases succeeded
  · cases succeeded
  · exact leaves.good v succeeded

theorem numbered_of_runForms
    {forms : List Value} {outcomes : List Outcome} (numbered : session.Numbered)
    (before : ∀ form ∈ forms, form.MadeBefore session.serial)
    (replies : ∀ exchange ∈ exchanges, exchange.reply.MadeBefore session.serial)
    (path : Path (session.runForms forms) exchanges (outcomes, next)) :
    session.serial ≤ next.serial ∧ next.Numbered := by
  induction forms generalizing session exchanges outcomes with
  | nil =>
      cases path
      exact ⟨Nat.le_refl _, numbered⟩
  | cons form forms induction =>
      obtain ⟨outcome, others, middle, front, back, rfl, rfl, first, rest⟩ :=
        path_runForms_cons path
      obtain ⟨form_before, forms_before⟩ := List.forall_mem_cons.mp before
      obtain ⟨front_replies, back_replies⟩ := List.forall_mem_append.mp replies
      have leaves := leaves_of_runForm numbered form_before front_replies first
      obtain ⟨le, ends⟩ := induction leaves.numbered
        (fun form member => (forms_before form member).mono leaves.le)
        (fun exchange member => (back_replies exchange member).mono leaves.le) rest
      exact ⟨Nat.le_trans leaves.le le, ends⟩

/-- Of the forms of a text nothing has to be known. -/
theorem numbered_of_run
    {text : String} {outcomes : List Outcome} (numbered : session.Numbered)
    (replies : ∀ exchange ∈ exchanges, exchange.reply.MadeBefore session.serial)
    (path : Path (session.run text) exchanges (outcomes, next)) :
    session.serial ≤ next.serial ∧ next.Numbered := by
  unfold run at path
  split at path
  · next forms read =>
      exact numbered_of_runForms numbered (Datum.madeBefore_of_readAll read _) replies path
  · cases path
    exact ⟨Nat.le_refl _, numbered⟩

theorem numbered_start (maxDepth serial : Nat) :
    (start (Context.root.withMaxDepth maxDepth) serial).Numbered :=
  ⟨(Context.madeBefore_root serial).globals, (Context.madeBefore_root serial).scope⟩

end Forms

/-- The session after some texts, one after the other, on a bridge. -/
def afterTexts {ω : Type} (bridge : Bridge ω) : Session → ω → List String → Session
  | session, _, [] => session
  | session, world, text :: texts =>
      let played := bridge.play world (session.run text)
      afterTexts bridge played.result.2 played.world texts

/-- After any texts on any host a session holds only lambdas that have their numbers, so
the next lambda is told apart from all that there are. -/
theorem numbered_afterTexts
    {ω : Type} (host : Host (StateM ω)) (maxDepth : Nat) (world : ω) (texts : List String) :
    (afterTexts host.bridge (start (Context.root.withMaxDepth maxDepth) 0) world
      texts).Numbered := by
  have each (session : Session) (numbered : session.Numbered) :
      (afterTexts host.bridge session world texts).Numbered := by
    induction texts generalizing session world with
    | nil => exact numbered
    | cons text texts induction =>
        apply induction
        have replies := Interaction.forall_reply_play
          (fun effect world => host.madeBefore_perform effect world session.serial) world
          (session.run text)
        exact (numbered_of_run numbered replies (Interaction.path_play ..)).2
  exact each _ (numbered_start maxDepth 0)

end Session

end EffectLisp
