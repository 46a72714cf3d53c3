import EffectLisp.CommandLine
import EffectLisp.Host
import EffectLisp.Repl.Balance
import EffectLisp.Repl.Typing
import EffectLisp.Session
import EffectLisp.Text.Blank

/-!
# Conversations

A conversation takes one line after the other.  Lines gather until they are
balanced; then they run, and every outcome is printed: values to the output,
faults to the errors.  Where a new input begins, a few words are commands to
the conversation itself.
-/

namespace EffectLisp

variable {m : Type → Type} [Monad m]

/-- Print outcomes, values only if they are wanted. -/
def Host.report (host : Host m) (color printValues : Bool) : List Outcome → m Unit
  | [] => pure ()
  | outcome :: outcomes => do
      if outcome.isFault then host.say .errors (outcome.line color)
      else if printValues then host.say .output (outcome.line false)
      host.report color printValues outcomes

/-- Run a text and print its outcomes.  The first result tells whether any form
failed. -/
def Host.execute (host : Host m) (color printValues : Bool) (session : Session)
    (source : String) : m (Bool × Session) := do
  let (outcomes, session) ← (session.run source).answer host.reply
  host.report color printValues outcomes
  pure (outcomes.any (·.isFault), session)

def Host.sayAll (host : Host m) : List String → m Unit
  | [] => pure ()
  | line :: lines => do
      host.say .output line
      host.sayAll lines

/-- The session of a conversation and the lines that wait for more. -/
structure Repl where
  session : Session
  pending : String

namespace Repl

/-- What a line asks of the conversation itself. -/
inductive Command where
  | skip
  | stop
  | help
  | builtins
  deriving DecidableEq, Repr

/-- The command on a line, blanks around it left out. -/
def Command.ofLine? (line : String) : Option Command :=
  match Text.trim line with
  | "" => some .skip
  | "exit" | "quit" => some .stop
  | ".help" | ".h" => some .help
  | ".builtins" | ".b" => some .builtins
  | _ => none

/-- What a line leads to. -/
inductive Reaction where
  | command (c : Command)
  /-- The text so far is not balanced and waits for more. -/
  | wait (pending : String)
  /-- The text so far is balanced and runs. -/
  | run (source : String)
  deriving DecidableEq, Repr

/-- What a line leads to after the lines that wait.  Commands are looked for only
where nothing waits. -/
def react (pending line : String) : Reaction :=
  match if pending.isEmpty then Command.ofLine? line else none with
  | some c => .command c
  | none =>
      let text := pending ++ line ++ "\n"
      if isBalanced text then .run text else .wait text

/-- The names of all primitives in one line. -/
def builtinsLine : String :=
  " ".intercalate (Primitive.all.map Primitive.name)

/-- Take a line; nothing comes back where the conversation ends. -/
def feed (host : Host m) (color : Bool) (repl : Repl) (line : String) : m (Option Repl) := do
  match react repl.pending line with
  | .command .skip => pure (some repl)
  | .command .stop => pure none
  | .command .help =>
      host.sayAll CommandLine.helpLines
      pure (some repl)
  | .command .builtins =>
      host.say .output builtinsLine
      pure (some repl)
  | .wait pending => pure (some { repl with pending })
  | .run source => do
      let (_, session) ← host.execute color true repl.session source
      pure (some ⟨session, ""⟩)

/-- Take lines until the conversation or the lines end.  Lines that still wait
are dropped. -/
def converse (host : Host m) (color : Bool) (repl : Repl) : List String → m Unit
  | [] => pure ()
  | line :: lines => do
      match ← repl.feed host color line with
      | some repl => repl.converse host color lines
      | none => pure ()

end Repl

end EffectLisp
