import EffectLisp.Token.Lexer
import EffectLisp.Number.Spelling
import EffectLisp.Value

/-!
# Atoms

An atom spells a boolean, a number or else a symbol.  A symbol whose name would
not come back as the same symbol is unreadable and is never written.
-/

namespace EffectLisp.Datum

def ofAtom (spelling : String) : Value :=
  if spelling = "#t" then .bool true
  else if spelling = "#f" then .bool false
  else
    match Number.ofChars? spelling.toList with
    | some x => .number x
    | none => .symbol spelling

def spellsSymbol (spelling : String) : Bool :=
  match ofAtom spelling with
  | .symbol _ => true
  | _ => false

/-- Whether a symbol of the name reads back as the same symbol: the name is a
single atom and spells no boolean and no number. -/
def isReadableSymbol (name : String) : Bool :=
  !name.isEmpty && name.toList.all (!Token.isDelimiter ·) && spellsSymbol name

end EffectLisp.Datum
