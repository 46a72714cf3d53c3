import EffectLisp.Context
import EffectLisp.Host
import EffectLisp.FileSystem.Path
import EffectLisp.Toml.Document

/-!
# Configuration

The settings come from three places: defaults, a file, and the environment,
each overriding those before it.  A file that cannot be used contributes
nothing, and an environment variable with an unusable value is ignored, so the
limit on depth is always positive.  What reads the text of the file is a
parameter.
-/

namespace EffectLisp

/-- The environment variables that matter. -/
structure Environment where
  home : Option String
  config : Option String
  maxDepth : Option String
  banner : Option String

structure Config where
  /-- The deepest nesting of an evaluation. -/
  maxDepth : Nat
  /-- Where the lines of a conversation are kept. -/
  historyFile : Option String
  /-- A file of forms that run before a conversation. -/
  prelude : Option String
  /-- Whether a conversation starts with a line about the program. -/
  banner : Bool
  deriving DecidableEq, Repr

inductive ConfigError where
  | unreadable
  | malformed
  | zeroDepth
  deriving DecidableEq, Repr

namespace ConfigError

/-- The text about a setting that is not allowed. -/
def message : ConfigError → String
  | unreadable => "cannot read the configuration file"
  | malformed => "cannot parse the configuration file"
  | zeroDepth => "invalid config: max_depth must be > 0"

end ConfigError

namespace Config

/-- The settings without a file; paths are inside the home directory. -/
def default (home : Option String) : Config where
  maxDepth := Context.defaultMaxDepth
  historyFile := home.map (FileSystem.join · ".kern_history")
  prelude := home.map (FileSystem.join · ".kernrc")
  banner := false

/-- The settings with one key of a file taken over.  A key that is no setting
changes nothing; a setting of the wrong type is an error. -/
def set (config : Config) (key : String) (v : Toml.Value) : Option Config :=
  match key, v with
  | "max_depth", .integer n => if n < 0 then none else some { config with maxDepth := n.toNat }
  | "history_file", .string path => some { config with historyFile := some path }
  | "prelude", .string path => some { config with prelude := some path }
  | "banner", .boolean b => some { config with banner := b }
  | "max_depth", _ | "history_file", _ | "prelude", _ | "banner", _ => none
  | _, _ => some config

def ofText (parse : Toml.Parser) (home : Option String) (text : String) :
    Except ConfigError Config :=
  match parse text with
  | none => .error .malformed
  | some entries =>
      match entries.foldlM (fun config (key, v) => set config key v) (default home) with
      | none => .error .malformed
      | some config => if config.maxDepth = 0 then .error .zeroDepth else .ok config

/-- The number that a text of decimal digits spells, if it fits into 64 bits; a
plus may stand in front. -/
def wordOf? (text : String) : Option Nat :=
  let digits := match text.toList with
    | '+' :: digits => digits
    | digits => digits
  if digits = [] || !digits.all Char.isDigit then none
  else
    let n := Number.digitsValue digits
    if n < 2 ^ 64 then some n else none

/-- The settings with those of the environment taken over. -/
def override (config : Config) (env : Environment) : Config where
  maxDepth :=
    match env.maxDepth.bind wordOf? with
    | some depth => if depth = 0 then config.maxDepth else depth
    | none => config.maxDepth
  historyFile := config.historyFile
  prelude := config.prelude
  banner := config.banner || env.banner = some "1"

/-- Where the file is: where the environment says, or inside the home
directory. -/
def path (env : Environment) : Option String :=
  env.config <|>
    env.home.map fun home => FileSystem.join (FileSystem.join home ".kern") "config.toml"

variable {m : Type → Type} [Monad m]

/-- The settings of a file; a missing file leaves the defaults. -/
def ofFile (host : Host m) (home : Option String) (path : String)
    (parse : Toml.Parser := Toml.parse) : m (Except ConfigError Config) := do
  if ← host.exists? path then
    match ← host.readText path with
    | .ok text => pure (ofText parse home text)
    | .error _ => pure (.error .unreadable)
  else pure (.ok (default home))

/-- The settings of a run.  A file that cannot be used counts as missing. -/
def load (host : Host m) (env : Environment) (parse : Toml.Parser := Toml.parse) :
    m Config := do
  match path env with
  | none => pure ((default env.home).override env)
  | some path =>
      match ← ofFile host env.home path parse with
      | .ok config => pure (config.override env)
      | .error _ => pure ((default env.home).override env)

end Config

end EffectLisp
