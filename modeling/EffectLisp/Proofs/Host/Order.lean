import EffectLisp.Machine
import EffectLisp.Proofs.Session.Joined
import EffectLisp.Repl

/-!
# When a host prints

Outcomes are said after the text that led to them has run, so between two texts that run in
turn.  On a host where printing and requests do not get in each other's way all of them can
as well be said at the end.
-/

namespace EffectLisp

variable {m : Type → Type} [Monad m] {α β : Type}

/-- Say what became of one form: a fault goes to the errors, a value to the output. -/
def Host.announce (host : Host m) (color : Bool) (outcome : Outcome) : m Unit :=
  if outcome.isFault then host.say .errors (outcome.line color)
  else host.say .output (outcome.line false)

/-- Run texts in turn, and after each of them say what became of its forms. -/
def Host.runInTurn (host : Host m) (color : Bool) (session : Session) :
    List String → m Session
  | [] => pure session
  | source :: sources => do
      let (outcomes, session) ← (session.run source).answer host.reply
      outcomes.forM (host.announce color)
      host.runInTurn color session sources

/-- Two actions, of which the first has no result, can be done in either order. -/
def Swaps (first : m Unit) (second : m α) : Prop :=
  (do first; second) = (do let a ← second; first; pure a)

/-- Whether a line is said before a request or after it makes no difference. -/
def Host.Independent (host : Host m) : Prop :=
  ∀ stream line effect, Swaps (host.say stream line) (host.reply effect)

variable [LawfulMonad m]

theorem Interaction.answer_bind
    (reply : Effect → m Reply) (x : Interaction α) (next : α → Interaction β) :
    (x >>= next).answer reply = (do
      let a ← x.answer reply
      (next a).answer reply) := by
  induction x with
  | done a => exact (pure_bind a fun a => (next a).answer reply).symm
  | request effect resume induction =>
      calc
        _ = (do
              let r ← reply effect
              (resume r >>= next).answer reply) := rfl
        _ = (do
              let r ← reply effect
              let a ← (resume r).answer reply
              (next a).answer reply) := by simp only [induction]
        _ = _ := (LawfulMonad.bind_assoc ..).symm

omit [LawfulMonad m] in
theorem Interaction.answer_pure (reply : Effect → m Reply) (a : α) :
    (pure a : Interaction α).answer reply = pure a := rfl

namespace Swaps

variable {first : m Unit} {second : m α} {next : α → m β}

theorem pure_right (a : α) : Swaps first (pure a) := by
  simp [Swaps]

theorem pure_left : Swaps (pure ()) second := by
  simp [Swaps]

theorem bind_right (swaps : Swaps first second) (later : ∀ a, Swaps first (next a)) :
    Swaps first (second >>= next) := by
  simp only [Swaps] at swaps later
  calc
    _ = (do let a ← (do first; second); next a) := (bind_assoc ..).symm
    _ = (do let a ← second; first; next a) := by
      rw [swaps]
      simp only [bind_assoc, pure_bind]
    _ = _ := by simp only [later, bind_assoc]

theorem bind_left {other : m Unit} (swaps : Swaps first second) (after : Swaps other second) :
    Swaps (do first; other) second := by
  simp only [Swaps] at swaps after
  calc
    _ = (do first; (do other; second)) := bind_assoc ..
    _ = (do let a ← (do first; second); other; pure a) := by
      rw [after]
      exact (bind_assoc ..).symm
    _ = _ := by
      rw [swaps]
      simp only [bind_assoc, pure_bind]

end Swaps

namespace Host

omit [LawfulMonad m] in
/-- A report with the values in it announces every outcome. -/
theorem report_eq_forM (host : Host m) (color : Bool) (outcomes : List Outcome) :
    host.report color true outcomes = outcomes.forM (host.announce color) := by
  induction outcomes with
  | nil => rfl
  | cons outcome outcomes induction =>
      have first : (outcome :: outcomes).forM (host.announce color) = (do
          host.announce color outcome
          outcomes.forM (host.announce color)) := rfl
      rw [report, induction, first, announce]
      split
      · rfl
      · rfl

omit [LawfulMonad m] in
theorem execute_eq (host : Host m) (color : Bool) (session : Session) (source : String) :
    host.execute color true session source = (do
      let (outcomes, final) ← (session.run source).answer host.reply
      outcomes.forM (host.announce color)
      pure (outcomes.any (·.isFault), final)) := by
  simp only [execute, report_eq_forM]

/-- What a host answers is what its bridge plays. -/
theorem run_answer
    {ω : Type} (host : Host (StateM ω)) (x : Interaction α) (world : ω) :
    (x.answer host.reply).run world =
      pure ((host.bridge.play world x).result, (host.bridge.play world x).world) := by
  induction x generalizing world with
  | done a => rfl
  | request effect resume induction => exact induction _ _

variable {host : Host m} (independent : host.Independent)

include independent

theorem Independent.say_answer (stream : Stream) (line : String) (x : Interaction α) :
    Swaps (host.say stream line) (x.answer host.reply) := by
  induction x with
  | done a => exact Swaps.pure_right a
  | request effect resume induction =>
      exact (independent stream line effect).bind_right induction

theorem Independent.announce_answer
    (color : Bool) (outcome : Outcome) (x : Interaction α) :
    Swaps (host.announce color outcome) (x.answer host.reply) := by
  unfold announce
  split
  · exact independent.say_answer ..
  · exact independent.say_answer ..

theorem Independent.announceAll_answer
    (color : Bool) (outcomes : List Outcome) (x : Interaction α) :
    Swaps (outcomes.forM (host.announce color)) (x.answer host.reply) := by
  induction outcomes with
  | nil => exact Swaps.pure_left
  | cons outcome outcomes induction =>
      exact (independent.announce_answer color outcome x).bind_left induction

/-- Where it makes no difference when something is said, texts that run in turn run like one
text, of which every outcome is said at the end. -/
theorem Independent.runInTurn_eq
    (color : Bool) (session : Session) (sources : List String) :
    host.runInTurn color session sources = (do
      let (outcomes, final) ← (session.runAll sources).answer host.reply
      outcomes.forM (host.announce color)
      pure final) := by
  induction sources generalizing session with
  | nil =>
      simp only [runInTurn, Session.runAll, Interaction.answer_pure, pure_bind,
        List.forM_eq_forM, List.forM_nil]
  | cons source sources induction =>
      simp only [runInTurn, Session.runAll, Interaction.answer_bind, induction,
        Interaction.answer_pure, bind_assoc, pure_bind]
      congr 1
      funext first
      obtain ⟨outcomes, middle⟩ := first
      have postponed :=
        independent.announceAll_answer color outcomes (middle.runAll sources)
      rw [Swaps] at postponed
      rw [← bind_assoc, postponed]
      simp only [bind_assoc, pure_bind, List.forM_eq_forM, List.forM_append]

end Host

namespace Machine

/-- What a machine replies, and what becomes of its files, does not depend on the lines
written so far, which stay. -/
theorem reply_run (effect : Effect) (files : FileSystem) (said : List Line) :
    (host.reply effect).run ⟨files, said⟩ =
      let (reply, next) := (host.reply effect).run ⟨files, []⟩
      (reply, ⟨next.files, said⟩) := by
  cases effect with
  | probe path => rfl
  | read path =>
      simp only [Host.reply, host]
      cases read : files.readText path <;>
      · simp only [bind_assoc, pure_bind, StateT.run_bind, StateT.run_get, read]
        rfl
  | write path content mode =>
      simp only [Host.reply, Host.write, host]
      cases readOnly : files.isReadOnly path
      · cases opened : files.openFile path mode.options <;>
        · simp [readOnly, opened]
          rfl
      · simp [readOnly]
        rfl
  | fetch url => rfl

theorem host_independent : host.Independent := by
  intro stream line effect
  funext machine
  change (host.reply effect).run ⟨machine.files, (stream, line) :: machine.said⟩ =
    let (reply, next) := (host.reply effect).run ⟨machine.files, machine.said⟩
    (reply, ⟨next.files, (stream, line) :: next.said⟩)
  rw [reply_run effect machine.files machine.said, reply_run]
  rfl

end Machine

end EffectLisp
