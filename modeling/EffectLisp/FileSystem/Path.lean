/-!
# Paths

A path is a sequence of names with slashes between them.  A slash in front
makes it start at the root instead of the working directory; one at the end
says that it names a directory; repeated slashes count as one.
-/

namespace EffectLisp.FileSystem

structure Path where
  absolute : Bool
  names : List String
  /-- Whether the path ends with a slash. -/
  trailing : Bool
  deriving DecidableEq, Repr

def pieces : List Char → List (List Char)
  | [] => [[]]
  | c :: chars =>
      if c = '/' then [] :: pieces chars
      else
        match pieces chars with
        | piece :: others => (c :: piece) :: others
        | [] => [[c]]

def Path.ofString (path : String) : Path where
  absolute := path.toList.head? = some '/'
  names := ((pieces path.toList).filter (· ≠ [])).map String.ofList
  trailing := path.toList.getLast? = some '/'

/-- The path of a name inside a directory: a name that starts at the root
stays, and no slash is doubled. -/
def join (directory name : String) : String :=
  if directory.isEmpty || name.startsWith "/" then name
  else if directory.endsWith "/" then directory ++ name
  else directory ++ "/" ++ name

end EffectLisp.FileSystem
