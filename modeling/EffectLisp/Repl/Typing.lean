import EffectLisp.Text.Cluster
import EffectLisp.Text.Lines

/-!
# Typed lines

A backspace in a line takes back the cluster in front of it, or nothing at the
start of the line.  How much it takes back is the size of the cluster in bytes,
which is kept in a single byte: of a cluster of 256 bytes or more only the
remainder counts.
-/

namespace EffectLisp.Repl

/-- A line while it is typed: its characters and the sizes of its clusters, both
with the latest first. -/
structure Typing where
  chars : List Char
  sizes : List Nat
  deriving DecidableEq, Repr

namespace Typing

def start : Typing := ⟨[], []⟩

/-- The characters without so many bytes in front. -/
def dropBytes : Nat → List Char → List Char
  | 0, chars => chars
  | _ + 1, [] => []
  | bytes + 1, c :: chars => dropBytes (bytes + 1 - c.utf8Size) chars

/-- How many bytes a backspace takes back for a cluster. -/
def size (cluster : List Char) : Nat :=
  (String.ofList cluster).utf8ByteSize % 256

/-- Take back the latest cluster. -/
def erase (typing : Typing) : Typing :=
  match typing.sizes with
  | [] => typing
  | bytes :: sizes => ⟨dropBytes bytes typing.chars, sizes⟩

/-- Type one more cluster. -/
def type (typing : Typing) (cluster : List Char) : Typing :=
  if cluster = ['\x08'] then typing.erase
  else ⟨cluster.reverse ++ typing.chars, size cluster :: typing.sizes⟩

end Typing

/-- What a typed line comes to once its backspaces have done their work. -/
def typedLine (line : String) : String :=
  String.ofList ((Text.Cluster.split line.toList).foldl Typing.type .start).chars.reverse

/-- The lines that are typed in a whole input. -/
def typedLines (input : String) : List String :=
  (Text.lines input).map typedLine

end EffectLisp.Repl
