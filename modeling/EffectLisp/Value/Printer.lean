import EffectLisp.Value
import EffectLisp.Number.Shortest
import EffectLisp.Text.Quoted

/-!
# The text of a value

Every value has a text for people to read.  It is also what the reader accepts,
as long as the value holds no function, no symbol with an unreadable name and
no nesting beyond the reader's limit; the printer itself has no limit.
-/

namespace EffectLisp.Value

def boolChars (b : Bool) : List Char :=
  if b then ['#', 't'] else ['#', 'f']

mutual

/-- The text of a value, strings quoted and symbols as they are, in front of what is
printed after it. -/
def charsBefore (rest : List Char) : Value → List Char
  | string text => Text.quote text.toList ++ rest
  | number x => Number.chars x ++ rest
  | bool b => boolChars b ++ rest
  | symbol name => name.toList ++ rest
  | callable c => c.chars ++ rest
  | list items => '(' :: itemsBefore rest items

/-- The items of a list with a space between them, and the closing parenthesis. -/
def itemsBefore (rest : List Char) : List Value → List Char
  | [] => ')' :: rest
  | item :: [] => item.charsBefore (')' :: rest)
  | item :: other :: items => item.charsBefore (' ' :: itemsBefore rest (other :: items))

end

def display (v : Value) : String :=
  String.ofList (v.charsBefore [])

end EffectLisp.Value
