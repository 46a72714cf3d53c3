import EffectLisp.Config
import EffectLisp.Repl

/-!
# The program

From the arguments and the environment to an exit code.  A run ends at once, or
turns into a conversation that takes lines until it ends.  The exit code is one
if any form of a text or a script failed, or the script could not be read.
-/

namespace EffectLisp.Program

variable {m : Type → Type} [Monad m]

/-- How a run goes on. -/
inductive Phase where
  | finished (code : Nat)
  | conversing (repl : Repl)

/-- The exit code of a text whose forms failed or not. -/
def exitCode (failed : Bool) : Nat :=
  if failed then 1 else 0

def runScript (host : Host m) (color : Bool) (session : Session) (path : String) : m Nat := do
  match ← host.readText path with
  | .error error =>
      host.say .errors ("Error reading " ++ path ++ ": " ++ error.text)
      pure 1
  | .ok source => do
      let (failed, _) ← host.execute color false session source
      pure (exitCode failed)

/-- Run the prelude of a conversation.  One that cannot be read is passed over. -/
def runPrelude (host : Host m) (color : Bool) (session : Session) :
    Option String → m Session
  | none => pure session
  | some path => do
      match ← host.readText path with
      | .error _ => pure session
      | .ok source => do
          let (failed, session) ← host.execute color false session source
          if failed then host.say .errors ("Warning: " ++ path ++ " did not load cleanly")
          pure session

def startConversation (host : Host m) (color : Bool) (config : Config) (session : Session) :
    m Repl := do
  let session ← runPrelude host color session config.prelude
  if config.banner then host.say .output CommandLine.bannerText
  pure ⟨session, ""⟩

/-- Do what the arguments ask for, up to the first line of a conversation. -/
def start (host : Host m) (color : Bool) (env : Environment) (args : List String) : m Phase := do
  let line := CommandLine.parse args
  if line.help then
    host.sayAll CommandLine.helpLines
    pure (.finished 0)
  else if line.version then
    host.say .output CommandLine.versionText
    pure (.finished 0)
  else
    let config ← Config.load host env Toml.parse
    let session := Session.start (Context.root.withMaxDepth config.maxDepth) 0
    match line.command, line.script with
    | some source, _ => do
        let (failed, _) ← host.execute color true session source
        pure (.finished (exitCode failed))
    | none, some path => do pure (.finished (← runScript host color session path))
    | none, none => do pure (.conversing (← startConversation host color config session))

/-- A whole run with all lines of its input at hand. -/
def run (host : Host m) (color : Bool) (env : Environment) (args : List String)
    (input : String) : m Nat := do
  match ← start host color env args with
  | .finished code => pure code
  | .conversing repl => do
      repl.converse host color (Repl.typedLines input)
      pure 0

end EffectLisp.Program
