import EffectLisp.Datum.Parser
import EffectLisp.Value.Equality

/-!
# Reading and writing values

`read` and `readAll` turn text into values, `show` turns a value into text.
`show` refuses whatever would not come back: functions, symbols with unreadable
names, and lists nested deeper than the reader accepts.
-/

namespace EffectLisp.Datum

/-- The tokens of a text, with a failure as a fault. -/
def tokens (text : String) : Except Fault (List Lexeme) :=
  (Token.lex text).mapError fun error => .parseFailure (.lexical error)

/-- The only datum of a text. -/
def read (text : String) : Except Fault Value := do
  (parseOne (← tokens text)).mapError fun error => .parseFailure (.structural error)

/-- Every datum of a text. -/
def readAll (text : String) : Except Fault (List Value) := do
  (parseAll (← tokens text)).mapError fun error => .parseFailure (.structural error)

mutual

/-- The text of a value inside so many lists, as long as it can be read back. -/
def write (depth : Nat) : Value → Except Fault (List Char)
  | .string text => .ok (Text.quote text.toList)
  | .number x => .ok (Number.chars x)
  | .bool b => .ok (Value.boolChars b)
  | .symbol name =>
      if isReadableSymbol name then .ok name.toList
      else .error (.typeMismatch .readableSymbol (.symbol name))
  | .callable c => .error (.typeMismatch .serializable (.callable c))
  | .list items =>
      if nestingLimit ≤ depth then .error (.recursionLimit nestingLimit)
      else do
        let inside ← writeItems (depth + 1) items
        pure ('(' :: inside)

/-- The items of a list with a space between them, and the closing parenthesis. -/
def writeItems (depth : Nat) : List Value → Except Fault (List Char)
  | [] => .ok [')']
  | item :: [] => do
      let chars ← write depth item
      pure (chars ++ [')'])
  | item :: other :: items => do
      let chars ← write depth item
      let rest ← writeItems depth (other :: items)
      pure (chars ++ ' ' :: rest)

end

/-- The text of a value, if reading the text gives the value back. -/
def showValue (v : Value) : Except Fault String := do
  pure (String.ofList (← write 0 v))

end EffectLisp.Datum
