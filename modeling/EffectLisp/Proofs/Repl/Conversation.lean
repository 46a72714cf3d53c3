import EffectLisp.Proofs.Host.Order
import EffectLisp.Proofs.Repl.Inputs
import Mathlib.Data.List.Basic

/-!
# Typing a program

A conversation that takes the lines of a program runs the program: it runs the inputs that
the lines are gathered into, and these are read, one after the other, as the forms of the
whole.  On a host where printing and requests do not get in each other's way it is one run of
the text, of which every outcome is said.
-/

namespace EffectLisp.Repl

section Conversation

variable {m : Type → Type} [Monad m]

/-- Take all of the lines; nothing comes back where the conversation ends before. -/
def feedAll (host : Host m) (color : Bool) (repl : Repl) : List String → m (Option Repl)
  | [] => pure (some repl)
  | line :: lines => do
      match ← repl.feed host color line with
      | some repl => repl.feedAll host color lines
      | none => pure none

variable [LawfulMonad m]

/-- The lines that a conversation takes lead to the state that is dropped at its end. -/
theorem converse_eq (host : Host m) (color : Bool) (repl : Repl) (lines : List String) :
    repl.converse host color lines = (do
      let _ ← repl.feedAll host color lines
      pure ()) := by
  induction lines generalizing repl with
  | nil => simp [converse, feedAll]
  | cons line lines induction =>
      simp only [converse, feedAll, bind_assoc]
      congr 1
      funext next
      cases next with
      | none => simp
      | some repl => exact induction repl

/-- Without commands a conversation runs what its lines are gathered into. -/
theorem feedAll_eq
    {pending : String} {lines : List String} (noCommand : NoCommand pending lines)
    (host : Host m) (color : Bool) (session : Session) :
    feedAll host color ⟨session, pending⟩ lines = (do
      let final ← host.runInTurn color session (gather pending lines).1
      pure (some ⟨final, (gather pending lines).2⟩)) := by
  induction lines generalizing pending session with
  | nil => simp [feedAll, gather, Host.runInTurn]
  | cons line lines induction =>
      rcases noCommand.cases with
        ⟨rfl, reacts, -, later⟩ | ⟨reacts, -, later⟩ | ⟨reacts, -, later⟩
      · simp only [feedAll, feed, gather, reacts, pure_bind, induction later]
      · simp only [feedAll, feed, gather, reacts, Host.execute_eq, bind_assoc, pure_bind,
          induction later, Host.runInTurn]
      · simp only [feedAll, feed, gather, reacts, pure_bind, induction later]

end Conversation

/-- The lines of a text that can be read have a layout that derives the data of the text. -/
theorem exists_layout_of_lines
    {text : String} {forms : List Value} (noReturn : '\r' ∉ text.toList)
    (readable : Datum.readAll text = .ok forms) :
    ∃ lexemes, Token.Layout 0 (Text.unlines (Text.lines text)) lexemes ∧
      Datum.DerivesItems 0 lexemes forms := by
  obtain ⟨lexemes, lexed, derives⟩ := Datum.readAll_eq_ok_iff.mp readable
  have layout := Token.lexAt_eq_ok_iff.mp ((Token.lex_eq_lexAt text).symm.trans lexed)
  refine ⟨lexemes, ?_, derives⟩
  rcases Text.unlines_lines noReturn with same | ended
  · rwa [same]
  · have nothing : Token.Layout (0 + Token.byteCount text.toList + 1) [] [] := .last .nil
    rw [ended, ← List.append_nil lexemes]
    exact layout.append_line nothing

/-- The lines of a text that can be read, typed where nothing waits, run the text, and nothing
waits after them.  The lines that begin an input are to hold no command, and outside of lists
and strings no line is to end in a quote mark.

The inputs that the lines are gathered into, run in turn, are one run of the text: they make
the same requests and come to the same outcomes and the same session.  A conversation runs
these inputs in turn on whatever host, and says the outcomes of each after it.  So where it
makes no difference when something is said, all that it does is to run the text and to say
its outcomes, and it is left with the session of that run. -/
theorem feeding_lines_runs_text
    {text : String} {forms : List Value} (noReturn : '\r' ∉ text.toList)
    (readable : Datum.readAll text = .ok forms)
    (noCommand : NoCommand "" (Text.lines text))
    (noQuote : ∀ before line after, Text.lines text = before ++ line :: after →
      ¬EndsInQuote before line)
    (session : Session) :
    let inputs := (gather "" (Text.lines text)).1
    session.runAll inputs = session.run text ∧
      ∀ {m : Type → Type} [Monad m] [LawfulMonad m] (host : Host m) (color : Bool),
        feedAll host color ⟨session, ""⟩ (Text.lines text) = (do
          let final ← host.runInTurn color session inputs
          pure (some ⟨final, ""⟩)) ∧
        (host.Independent →
          feedAll host color ⟨session, ""⟩ (Text.lines text) = (do
            let (outcomes, final) ← (session.run text).answer host.reply
            outcomes.forM (host.announce color)
            pure (some ⟨final, ""⟩)) ∧
          converse host color ⟨session, ""⟩ (Text.lines text) = (do
            let (outcomes, _) ← (session.run text).answer host.reply
            outcomes.forM (host.announce color))) := by
  intro inputs
  obtain ⟨lexemes, layout, derives⟩ := exists_layout_of_lines noReturn readable
  have layoutAll : Token.Layout 0 ("".toList ++ Text.unlines (Text.lines text)) lexemes := layout
  have whole : Text.unlines [] = [] ++ "".toList := rfl
  obtain ⟨parts, reads, rfl, nothing⟩ :=
    exists_read_of_gather layoutAll derives whole rfl (.inl rfl) noCommand noQuote
  have sameRun : session.runAll inputs = session.run text := by
    rw [Session.runAll_of_reads reads, Session.run_of_readAll readable]
  refine ⟨sameRun, ?_⟩
  intro m _ _ host color
  have ran := feedAll_eq noCommand host color session
  rw [nothing] at ran
  refine ⟨ran, ?_⟩
  intro independent
  have once : host.runInTurn color session inputs = _ :=
    independent.runInTurn_eq color session inputs
  rw [sameRun] at once
  rw [converse_eq, ran, once]
  constructor
  · simp only [bind_assoc, pure_bind]
  · simp only [bind_assoc, pure_bind, bind_pure_unit]

/-- A string and a list that go over the end of a line, a parenthesis in a comment, a line
that is skipped, a quote mark at the end of a line within a list, and two forms on a line, of
which one writes a file and one fails. -/
theorem feeding_lines_runs_text_over_lines :
    let text := "(define a \"x\ny\") ; (\n\n(list '\na)\n(put \"f\" a) b"
    let forms : List Value :=
      [.list [.symbol "define", .symbol "a", .string "x\ny"],
        .list [.symbol "list", Datum.quoted (.symbol "a")],
        .list [.symbol "put", .string "f", .symbol "a"], .symbol "b"]
    let inputs := ["(define a \"x\ny\") ; (\n", "(list '\na)\n", "(put \"f\" a) b\n"]
    let session := Session.start .root 0
    let final := Session.start (Context.root.define "a" (.string "x\ny")) 0
    let written : FileSystem := ⟨[], [(["f"], .file "x\ny".toUTF8 false)], []⟩
    let machine : Machine := ⟨⟨[], [], []⟩, []⟩
    let ran : Played (List Outcome × Session) Machine :=
      ⟨[⟨.write "f" "x\ny" .truncate, .value (.string "x\ny")⟩],
        ([.value (.symbol "a"), .value (.list [.symbol "a"]), .value (.string "x\ny"),
          .fault (.unbound "b")], final),
        ⟨written, []⟩⟩
    Datum.readAll text = .ok forms ∧
      gather "" (Text.lines text) = (inputs, "") ∧
      session.runAll inputs = session.run text ∧
      Machine.host.bridge.play machine (session.run text) = ran ∧
      (feedAll Machine.host true ⟨session, ""⟩ (Text.lines text)).run machine =
        pure (some ⟨final, ""⟩,
          ⟨written,
            [(.errors, "\x1b[31mError[Unbound]\x1b[0m: unbound symbol: b"),
              (.output, "\"x\\ny\""), (.output, "(a)"), (.output, "a")]⟩) := by
  intro text forms inputs session final written machine ran
  have lines : Text.lines text =
      ["(define a \"x", "y\") ; (", ""] ++ "(list '" :: ["a)", "(put \"f\" a) b"] := by
    decide +kernel
  have gathered : gather "" (Text.lines text) = (inputs, "") := by
    decide +kernel
  have readable : Datum.readAll text = .ok forms :=
    Datum.readAll_eq_ok_iff.mpr
      ⟨[⟨.opening, 0⟩, ⟨.atom "define", 1⟩, ⟨.atom "a", 8⟩, ⟨.literal "x\ny", 10⟩,
          ⟨.closing, 15⟩, ⟨.opening, 22⟩, ⟨.atom "list", 23⟩, ⟨.quoteMark, 28⟩,
          ⟨.atom "a", 30⟩, ⟨.closing, 31⟩, ⟨.opening, 33⟩, ⟨.atom "put", 34⟩,
          ⟨.literal "f", 38⟩, ⟨.atom "a", 42⟩, ⟨.closing, 43⟩, ⟨.atom "b", 45⟩],
        eq_ok_of_toOption (by decide +kernel), Datum.parseAll_eq_ok_iff.mp rfl⟩
  have noReturn : '\r' ∉ text.toList := by decide +kernel
  have noCommand : NoCommand "" (Text.lines text) := by
    have none : ∀ line ∈ Text.lines text, Text.trim line ∉ commandWords := by decide +kernel
    intro before line after split _
    exact none line (by simp [split])
  have noQuote (before : List String) (line : String) (after : List String)
      (split : Text.lines text = before ++ line :: after) : ¬EndsInQuote before line := by
    rintro ⟨front, gap, spelled, -, closed⟩
    have only : ∀ own ∈ Text.lines text, '\'' ∈ own.toList → own = "(list '" := by
      decide +kernel
    obtain rfl := only line (by simp [split]) (by simp [spelled])
    obtain ⟨rfl, -, -⟩ :=
      (List.append_cons_inj_of_notMem (by decide) (by decide)).mp (lines.symm.trans split)
    have marked : "(list ".toList ++ '\'' :: [] = front ++ '\'' :: gap := spelled
    obtain ⟨rfl, -, -⟩ :=
      (List.append_cons_inj_of_notMem (by decide) (by decide)).mp marked
    exact absurd closed (by decide)
  have played : Machine.host.bridge.play machine (session.run text) = ran := by
    rw [Session.run_of_readAll readable]
    with_unfolding_all rfl
  obtain ⟨same, fed⟩ := feeding_lines_runs_text noReturn readable noCommand noQuote session
  rw [gathered] at same
  obtain ⟨once, -⟩ := (fed Machine.host true).2 Machine.host_independent
  refine ⟨readable, gathered, same, played, ?_⟩
  rw [once, StateT.run_bind, Host.run_answer, played]
  with_unfolding_all rfl

end EffectLisp.Repl
