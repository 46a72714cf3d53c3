import EffectLisp.Program

/-!
# The program on the operating system

The operations of a host in terms of the system's files and streams, and the
loop that reads a conversation line by line.  There is no client for the
network here, so every fetch fails.

The library has no operation that reads the permissions of a file.  Whether a
file is read-only is found out by opening it for writing, which leaves its
content alone, so it means that this user may not write it.  A superuser may
write every file: what protects a file of mode 0444 on other hosts does not
protect it here from a program that runs as one, and a directory is refused when
it is opened and not before.
-/

namespace EffectLisp.Main

def fileError : IO.Error → FileError
  | .alreadyExists _ code details | .inappropriateType _ code details
  | .invalidArgument _ code details | .noSuchThing _ code details
  | .permissionDenied _ code details | .resourceExhausted _ code details
  | .interrupted _ code details
  | .hardwareFault code details | .illegalOperation code details | .otherError code details
  | .protocolError code details | .resourceBusy code details | .resourceVanished code details
  | .timeExpired code details | .unsatisfiedConstraints code details
  | .unsupportedOperation code details => .system code.toNat details
  | .noFileOrDirectory .. => .notFound
  | .unexpectedEof => .system 5 "Input/output error"
  | .userError message => .system 5 message

def attempted {α : Type} (operation : IO α) : IO (Except FileError α) := do
  try
    pure (.ok (← operation))
  catch error => pure (.error (fileError error))

/-- A path that the system can be given. -/
def checked {α : Type} (path : String) (operation : IO α) : IO (Except FileError α) := do
  if path.toList.contains '\x00' then pure (.error .nulInPath)
  else attempted operation

/-- Whether a path names anything: it can be opened, or it may not be. -/
def pathExists (path : String) : IO Bool := do
  match ← checked path (IO.FS.Handle.mk path .read) with
  | .ok _ => pure true
  | .error (.system 13 _) => pure true
  | .error _ => pure false

/-- Whether a path names something that this user may not write. -/
def isReadOnly (path : String) : IO Bool := do
  match ← checked path (IO.FS.Handle.mk path .readWrite) with
  | .error (.system 13 _) => pure true
  | _ => pure false

def readText (path : String) : IO (Except FileError String) := do
  match ← checked path (do (← IO.FS.Handle.mk path .read).readBinToEnd) with
  | .error error => pure (.error error)
  | .ok bytes =>
      match String.fromUTF8? bytes with
      | some text => pure (.ok text)
      | none => pure (.error .notText)

/-- How the system is asked to open a file.  It makes a missing file only where it
also empties or extends files. -/
def openMode (options : OpenOptions) : IO.FS.Mode :=
  if options.append then .append
  else if options.truncate then .write
  else .readWrite

def openFile (path : String) (options : OpenOptions) :
    IO (Except FileError IO.FS.Handle) :=
  if options.isValid then checked path (IO.FS.Handle.mk path (openMode options))
  else pure (.error .invalidArgument)

def writeAll (handle : IO.FS.Handle) (content : String) : IO (Except FileError Unit) :=
  attempted do
    handle.putStr content
    handle.flush

def host : Host IO where
  Handle := IO.FS.Handle
  exists? := pathExists
  isReadOnly := isReadOnly
  readText := readText
  openFile := openFile
  writeAll := writeAll
  fetch _ := pure (.error "there is no network")
  say
    | .output, text => IO.println text
    | .errors, text => IO.eprintln text

def environment : IO Environment := do
  pure ⟨← IO.getEnv "HOME", ← IO.getEnv "KERN_CONFIG", ← IO.getEnv "KERN_MAX_DEPTH",
    ← IO.getEnv "KERN_BANNER"⟩

/-- A line as it was typed, unless the input has ended. -/
def nextLine (input : IO.FS.Stream) : IO (Option String) := do
  let line ← input.getLine
  pure (Repl.typedLines line).head?

/-- Show a prompt where somebody reads it. -/
def prompt (repl : Repl) : IO Unit := do
  if ← (← IO.getStdin).isTty then
    let output ← IO.getStdout
    output.putStr (if repl.pending.isEmpty then "kern> " else "  ... ")
    output.flush

/-- Feed lines to a conversation until one of the two ends. -/
partial def converse (color : Bool) (repl : Repl) : IO Unit := do
  prompt repl
  match ← nextLine (← IO.getStdin) with
  | none => pure ()
  | some line =>
      match ← repl.feed host color line with
      | some repl => converse color repl
      | none => pure ()

/-- Run the program on the arguments after its name. -/
def run (args : List String) : IO UInt32 := do
  let color ← (← IO.getStderr).isTty
  match ← Program.start host color (← environment) args with
  | .finished code => pure code.toUInt32
  | .conversing repl => do
      converse color repl
      pure 0

end EffectLisp.Main

def main (args : List String) : IO UInt32 :=
  EffectLisp.Main.run args
