/-!
# The command line

The arguments choose what the program does: print its help or its version, run
the forms of a text or of a file, or hold a conversation.
-/

namespace EffectLisp

/-- What the arguments ask for. -/
structure CommandLine where
  /-- Forms given in the arguments themselves. -/
  command : Option String
  /-- A file of forms. -/
  script : Option String
  help : Bool
  version : Bool
  deriving DecidableEq, Repr

namespace CommandLine

def none : CommandLine := ⟨Option.none, Option.none, false, false⟩

/-- Take arguments into account from left to right.  All that follows `-c` is
one text of forms; of several files the last one counts; what starts with a
hyphen and is no option is ignored, and so is a `-c` at the end. -/
def parseFrom (line : CommandLine) : List String → CommandLine
  | [] => line
  | arg :: args =>
      if arg = "-c" then
        if args = [] then line else { line with command := some (" ".intercalate args) }
      else if arg = "--help" || arg = "-h" then parseFrom { line with help := true } args
      else if arg = "--version" || arg = "-V" then parseFrom { line with version := true } args
      else if arg.toList.head? = some '-' then parseFrom line args
      else parseFrom { line with script := some arg } args

/-- What the arguments after the program's name ask for. -/
def parse (args : List String) : CommandLine :=
  parseFrom none args

def versionText : String := "kern-0.1.0"

def bannerText : String :=
  versionText ++ " (.help for help, exit to quit)"

def helpLines : List String :=
  [versionText ++ " - a small evaluator with file and network effects",
   "",
   "USAGE:",
   "    kern                    Start interactive REPL",
   "    kern -c <forms>         Evaluate forms and print each result",
   "    kern <script.kern>      Run a script file",
   "    kern --help             Show this help message",
   "    kern --version          Show version",
   "",
   "STARTUP:",
   "    ~/.kern/config.toml     Configuration (KERN_CONFIG overrides the path)",
   "    ~/.kernrc               Forms run on REPL startup (if exists)",
   "    KERN_LOG=debug          Diagnostic tracing on stderr",
   "    KERN_MAX_DEPTH=N        Recursion limit",
   "    KERN_BANNER=1           Show startup banner",
   "",
   "SYNTAX:",
   "    42  -1.5  +inf.0        Numbers",
   "    \"text\\n\"                Strings (escapes: \\\" \\\\ \\n \\t \\r)",
   "    #t  #f                  Booleans",
   "    name                    Symbol (looked up when evaluated)",
   "    (f a b)                 Call f with a and b",
   "    'datum                  Quote: (quote datum)",
   "    ; comment               Ignored to end of line",
   "",
   "FORMS:",
   "    (define name expr)      Bind at top level",
   "    (define (f x) body)     Define a function",
   "    (lambda (x) body)       Anonymous function",
   "    (let ((x 1)) body)      Local bindings",
   "    (if c then else)        Conditional (only #f is false)",
   "    (begin a b ...)         Sequence, value of the last",
   "    (load \"file.kern\")      Run a file's forms at top level",
   "",
   "EFFECTS:",
   "    (slurp path)            Read a whole file (IOFailure if missing)",
   "    (put path text)         Write (truncate) and return text",
   "    (append path text)      Append and return text",
   "    (fileExists path)       #t or #f, never fails for a missing file",
   "    (wslurp url)            GET a URL, return the body",
   "",
   "CODEC:",
   "    (show value)            Value to text; functions cannot be shown",
   "    (parse text)            Text to value",
   "    (eval value)            Evaluate a value as code",
   "",
   "EXAMPLES:",
   "    (put \"tmp1\" (show (list 1 2 3)))",
   "    (parse (slurp \"tmp1\"))                 ; => (1 2 3)",
   "    (eval (parse (slurp \"expr.kern\")))",
   "",
   "REPL COMMANDS:",
   "    .help, .h               Show this help",
   "    .builtins, .b           List builtin primitives",
   "    exit, quit              Exit the REPL",
   ""]

end CommandLine

end EffectLisp
