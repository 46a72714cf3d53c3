/-!
# Tokens

Program text and stored data share one grammar, made of parentheses, quote
marks, string literals and atoms.  A lexeme is a token together with the byte
offset at which it starts, so that an error can say where it happened.
-/

namespace EffectLisp

inductive Token where
  | opening
  | closing
  /-- The mark that quotes the datum after it. -/
  | quoteMark
  /-- A string literal, its escape pairs resolved. -/
  | literal (text : String)
  /-- The spelling of a number, a boolean or a symbol. -/
  | atom (spelling : String)
  deriving DecidableEq, Repr

/-- A token and the byte offset at which it starts. -/
structure Lexeme where
  token : Token
  offset : Nat
  deriving DecidableEq, Repr

inductive LexError where
  /-- No quote ends the literal that starts at the offset. -/
  | unterminatedString (offset : Nat)
  /-- The literal that starts at the offset has an illegal escape pair. -/
  | invalidEscape (offset : Nat)
  deriving DecidableEq, Repr

def LexError.message : LexError → String
  | .unterminatedString offset => s!"unterminated string starting at offset {offset}"
  | .invalidEscape offset => s!"invalid escape in string starting at offset {offset}"

end EffectLisp
