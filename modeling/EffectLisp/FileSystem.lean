import EffectLisp.FileSystem.Path
import EffectLisp.Host

/-!
# A store of files

Files and directories in one tree, with a working directory.  A place is the
list of names that leads to an entry from the root.  A path is resolved name by
name: every name but the last must lead to a directory, `.` stays, `..` goes to
the directory above, and a name may have at most 255 bytes.  Opening a file can
fail; a write to an opened file cannot.  The store knows what is read-only, but
it is whoever writes who has to ask: opening does not, as for a superuser.
-/

namespace EffectLisp

/-- A file with its bytes, or a directory. -/
inductive Entry where
  | file (content : ByteArray) (readOnly : Bool)
  | directory

/-- The place of an entry: the names that lead to it from the root. -/
abbrev Place := List String

/-- A tree of files. -/
structure FileSystem where
  /-- The place that relative paths start at. -/
  workingDirectory : Place
  entries : List (Place × Entry)
  /-- The directories that nobody may write. -/
  sealed : List Place

namespace FileSystem

/-- The most bytes a name can have. -/
def longestName : Nat := 255

/-- The number of bytes that no path reaches. -/
def pathLimit : Nat := 4096

/-- The entry at a place; the root is a directory. -/
def find? (fs : FileSystem) (place : Place) : Option Entry :=
  if place = [] then some .directory
  else (fs.entries.find? (·.1 = place)).map (·.2)

/-- Put an entry into a list of entries, in place of one that is there. -/
def insertInto (place : Place) (entry : Entry) : List (Place × Entry) → List (Place × Entry)
  | [] => [(place, entry)]
  | old :: entries =>
      if old.1 = place then (place, entry) :: entries
      else old :: insertInto place entry entries

/-- The store with an entry at a place. -/
def insert (fs : FileSystem) (place : Place) (entry : Entry) : FileSystem :=
  { fs with entries := insertInto place entry fs.entries }

/-- The store with a directory wherever nothing is on the way along the names
from a place. -/
def makeDirectories (fs : FileSystem) (place : Place) : List String → FileSystem
  | [] => fs
  | name :: names =>
      let next := place ++ [name]
      if (fs.find? next).isSome then fs.makeDirectories next names
      else (fs.insert next .directory).makeDirectories next names

/-- A store with nothing but its working directory. -/
def empty (workingDirectory : Place) : FileSystem :=
  makeDirectories ⟨workingDirectory, [], []⟩ [] workingDirectory

/-- The store with an entry at a place, and the directories that it is in. -/
def putAt (fs : FileSystem) (place : Place) (entry : Entry) : FileSystem :=
  (fs.makeDirectories [] place.dropLast).insert place entry

/-- Follow one name from a directory. -/
def follow (fs : FileSystem) (place : Place) (name : String) : Except FileError Place :=
  match fs.find? place with
  | some .directory =>
      if name = "." then .ok place
      else if name = ".." then .ok place.dropLast
      else if longestName < name.utf8ByteSize then .error .nameTooLong
      else if (fs.find? (place ++ [name])).isSome then .ok (place ++ [name])
      else .error .notFound
  | some (.file ..) => .error .notDirectory
  | none => .error .notFound

/-- Follow names one after the other. -/
def walk (fs : FileSystem) (place : Place) : List String → Except FileError Place
  | [] => .ok place
  | name :: names => do fs.walk (← fs.follow place name) names

/-- Take a path apart, unless no path can be written so. -/
def pathOf (path : String) : Except FileError Path :=
  if path.toList.contains '\x00' then .error .nulInPath
  else if path.isEmpty then .error .notFound
  else if pathLimit ≤ path.utf8ByteSize then .error .nameTooLong
  else .ok (.ofString path)

def origin (fs : FileSystem) (path : Path) : Place :=
  if path.absolute then [] else fs.workingDirectory

/-- The place and the entry that a path names. -/
def resolve (fs : FileSystem) (path : String) : Except FileError (Place × Entry) := do
  let path ← pathOf path
  let place ← fs.walk (fs.origin path) path.names
  match fs.find? place with
  | none => .error .notFound
  | some .directory => .ok (place, .directory)
  | some (.file content readOnly) =>
      if path.trailing then .error .notDirectory else .ok (place, .file content readOnly)

/-- The place that a path names for writing, and the file that is there.  It may
be missing, but not the directory it is in. -/
def target (fs : FileSystem) (path : String) :
    Except FileError (Place × Option (ByteArray × Bool)) := do
  let path ← pathOf path
  let directory ← fs.walk (fs.origin path) path.names.dropLast
  match path.names.getLast? with
  | none => .error .isDirectory
  | some name =>
      match fs.find? directory with
      | some .directory =>
          if path.trailing || name = "." || name = ".." then .error .isDirectory
          else if longestName < name.utf8ByteSize then .error .nameTooLong
          else
            let place := directory ++ [name]
            match fs.find? place with
            | some .directory => .error .isDirectory
            | some (.file content readOnly) => .ok (place, some (content, readOnly))
            | none => .ok (place, none)
      | some (.file ..) => .error .notDirectory
      | none => .error .notFound

def exists? (fs : FileSystem) (path : String) : Bool :=
  (fs.resolve path).isOk

def isReadOnly (fs : FileSystem) (path : String) : Bool :=
  match fs.resolve path with
  | .ok (_, .file _ readOnly) => readOnly
  | .ok (place, .directory) => fs.sealed.contains place
  | .error _ => false

/-- The text of the file that a path names. -/
def readText (fs : FileSystem) (path : String) : Except FileError String := do
  match ← fs.resolve path with
  | (_, .directory) => .error .isDirectory
  | (_, .file content _) =>
      match String.fromUTF8? content with
      | some text => .ok text
      | none => .error .notText

/-- A file that is open for writing, before anything has been written to it. -/
structure OpenFile where
  place : Place
  /-- The file is written behind its content, and else from its start on. -/
  append : Bool
  deriving DecidableEq, Repr

/-- The bytes that a file keeps as it is opened. -/
def keptBytes (options : OpenOptions) (bytes : ByteArray) : ByteArray :=
  if options.truncate then .empty else bytes

/-- The bytes of an open file after a write.  From its start on a text takes the
place of as many bytes. -/
def OpenFile.written (file : OpenFile) (bytes : ByteArray) (content : String) : ByteArray :=
  let text := content.toUTF8
  if file.append then bytes ++ text else text ++ bytes.extract text.size bytes.size

/-- Open the file that a path names to write it.  A file that is there keeps its
mode. -/
def openFile (fs : FileSystem) (path : String) (options : OpenOptions) :
    Except FileError (OpenFile × FileSystem) :=
  if !options.isValid then .error .invalidArgument
  else do
    let (place, old) ← fs.target path
    match old with
    | none =>
        if options.create then
          .ok (⟨place, options.append⟩, fs.insert place (.file .empty false))
        else .error .notFound
    | some (bytes, readOnly) =>
        .ok (⟨place, options.append⟩,
          fs.insert place (.file (keptBytes options bytes) readOnly))

/-- Write a text to a file that has been opened. -/
def writeAll (fs : FileSystem) (file : OpenFile) (content : String) : FileSystem :=
  match fs.find? file.place with
  | some (.file bytes readOnly) =>
      fs.insert file.place (.file (file.written bytes content) readOnly)
  | _ => fs

/-- The entries below the working directory with their relative paths. -/
def listing (fs : FileSystem) : List (String × Entry) :=
  fs.entries.filterMap fun (place, entry) =>
    if fs.workingDirectory.isPrefixOf place && place ≠ fs.workingDirectory then
      some ("/".intercalate (place.drop fs.workingDirectory.length), entry)
    else none

end FileSystem

end EffectLisp
