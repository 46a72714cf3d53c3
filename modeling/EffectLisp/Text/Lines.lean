/-!
# Lines

A line ends at a line feed or at a carriage return and a line feed, and the
ending is no part of it.  A text that ends with a line feed has no empty line
after it.
-/

namespace EffectLisp.Text

/-- A line without the carriage return in front of its line feed, from the
reversed line. -/
def endedLine : List Char → List Char
  | '\r' :: line => line.reverse
  | line => line.reverse

/-- The lines of the text, of which the first starts with the reversed `line`. -/
def linesFrom (line : List Char) : List Char → List (List Char)
  | [] => if line = [] then [] else [line.reverse]
  | c :: rest =>
      if c = '\n' then endedLine line :: linesFrom [] rest else linesFrom (c :: line) rest

def lines (text : String) : List String :=
  (linesFrom [] text.toList).map String.ofList

end EffectLisp.Text
