import EffectLisp.Effect

/-!
# Hosts

A host is what a program runs on: files, URLs, and two streams for output.  It
is given by a handful of operations in some monad, so that one program runs on
the operating system and on a model of it alike.  `Host.reply` answers the
requests of an evaluation with these operations; it fixes what is checked
before a file is opened and how failures are reported.
-/

namespace EffectLisp

inductive FileError where
  /-- An error of the operating system, with its number. -/
  | system (code : Nat) (description : String)
  /-- The path has a character that no path can have. -/
  | nulInPath
  /-- The bytes of the file are no text. -/
  | notText
  deriving DecidableEq, Repr

namespace FileError

def text : FileError → String
  | system code description => s!"{description} (os error {code})"
  | nulInPath => "file name contained an unexpected NUL byte"
  | notText => "stream did not contain valid UTF-8"

/-- The path names nothing. -/
def notFound : FileError := system 2 "No such file or directory"

/-- Something that is no directory stands where one is needed. -/
def notDirectory : FileError := system 20 "Not a directory"

/-- A directory stands where a file is needed. -/
def isDirectory : FileError := system 21 "Is a directory"

/-- Something was asked for that makes no sense. -/
def invalidArgument : FileError := system 22 "Invalid argument"

/-- A name of the path is too long, or the path is. -/
def nameTooLong : FileError := system 36 "File name too long"

end FileError

/-- How a file is opened to be written. -/
structure OpenOptions where
  /-- A missing file is made. -/
  create : Bool
  /-- The file is written from its start on. -/
  write : Bool
  /-- The file loses its content as it is opened. -/
  truncate : Bool
  /-- The file is written behind its content. -/
  append : Bool
  deriving DecidableEq, Repr

/-- The file is opened for something, and what is to be extended is not to be
emptied. -/
def OpenOptions.isValid (options : OpenOptions) : Bool :=
  (options.write || options.append) && !(options.append && options.truncate)

/-- How the file of a write is opened. -/
def WriteMode.options (mode : WriteMode) : OpenOptions where
  create := true
  write := mode = .truncate
  truncate := mode = .truncate
  append := mode = .append

inductive Stream where
  | output
  | errors
  deriving DecidableEq, Repr

structure Host (m : Type → Type) where
  /-- A file that is open for writing. -/
  Handle : Type
  /-- Whether a path names a file or a directory. -/
  exists? : String → m Bool
  /-- Whether a path names a file or a directory that nobody may write. -/
  isReadOnly : String → m Bool
  /-- The text of a whole file. -/
  readText : String → m (Except FileError String)
  /-- Open a file to write it; this is when a file is made or emptied. -/
  openFile : String → OpenOptions → m (Except FileError Handle)
  /-- Write a whole text to a file that has been opened. -/
  writeAll : Handle → String → m (Except FileError Unit)
  /-- The text behind a URL, or the reason why there is none. -/
  fetch : String → m (Except String String)
  say : Stream → String → m Unit

namespace Host

variable {m : Type → Type} [Monad m]

/-- Write a file, unless it is read-only.  This is found out before the file is
opened, because one that is opened to be replaced is empty from then on. -/
def write (host : Host m) (path content : String) (mode : WriteMode) : m Reply := do
  if ← host.isReadOnly path then
    pure (.fault (.io (path ++ " is not writable") path))
  else
    match ← host.openFile path mode.options with
    | .error error =>
        pure (.fault (.io ("cannot open " ++ path ++ " for writing: " ++ error.text) path))
    | .ok handle =>
        match ← host.writeAll handle content with
        | .error error =>
            pure (.fault (.io ("cannot write " ++ path ++ ": " ++ error.text) path))
        | .ok () => pure (.value (.string content))

def reply (host : Host m) : Effect → m Reply
  | .probe path => do pure (.value (.bool (← host.exists? path)))
  | .read path => do
      match ← host.readText path with
      | .ok text => pure (.value (.string text))
      | .error error =>
          pure (.fault (.io ("cannot read " ++ path ++ ": " ++ error.text) path))
  | .write path content mode => host.write path content mode
  | .fetch url => do
      match ← host.fetch url with
      | .ok text => pure (.value (.string text))
      | .error reason => pure (.fault (.io ("fetch " ++ url ++ " failed: " ++ reason) url))

/-- The bridge of a host whose operations are functions of its state. -/
def bridge {ω : Type} (host : Host (StateM ω)) : Bridge ω where
  perform effect world := (host.reply effect).run world

end Host

end EffectLisp
