/-!
# Balanced text

A conversation is typed line by line, and the lines so far are run as soon as
every list and every string in them is closed.  A text is balanced when it
closes at least as many lists as it opens, strings and comments apart, and ends
outside of a string.  One parenthesis too many is balanced: the parser reports
it.
-/

namespace EffectLisp.Repl

/-- Where in a text a character stands. -/
inductive Region where
  | code
  | string
  /-- In a string, after a backslash. -/
  | escaped
  | comment
  deriving DecidableEq, Repr

/-- The lists still open, less those closed too often, and the region of the
next character. -/
structure Balance where
  depth : Int
  region : Region
  deriving DecidableEq, Repr

namespace Balance

def start : Balance := ⟨0, .code⟩

def step (balance : Balance) (c : Char) : Balance :=
  match balance.region with
  | .comment => if c = '\n' then { balance with region := .code } else balance
  | .escaped => { balance with region := .string }
  | .string =>
      if c = '\\' then { balance with region := .escaped }
      else if c = '"' then { balance with region := .code }
      else balance
  | .code =>
      if c = '"' then { balance with region := .string }
      else if c = ';' then { balance with region := .comment }
      else if c = '(' then { balance with depth := balance.depth + 1 }
      else if c = ')' then { balance with depth := balance.depth - 1 }
      else balance

/-- Whether a text with this balance can be run. -/
def isClosed (balance : Balance) : Bool :=
  balance.depth ≤ 0 && balance.region ≠ .string && balance.region ≠ .escaped

end Balance

/-- Whether every list and every string of the text is closed. -/
def isBalanced (text : String) : Bool :=
  (text.toList.foldl Balance.step .start).isClosed

end EffectLisp.Repl
