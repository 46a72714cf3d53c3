import EffectLisp.Token

/-!
# Why a text cannot be read

Reading fails where a text has no tokens, or where its tokens are no data.  Every
error but two says at which byte of the text it was found.
-/

namespace EffectLisp

/-- Why a token sequence is no sequence of data. -/
inductive ParseError where
  /-- A datum was expected where the tokens end. -/
  | unexpectedEnd
  /-- The list opened at the offset is never closed. -/
  | unclosedList (offset : Nat)
  /-- The parenthesis at the offset closes nothing. -/
  | unmatchedClose (offset : Nat)
  /-- Nothing follows the quote mark at the offset. -/
  | danglingQuote (offset : Nat)
  /-- One datum was expected and there is none. -/
  | emptyInput
  /-- One datum was expected and another token follows it at the offset. -/
  | trailingInput (offset : Nat)
  /-- The list or quote at the offset is nested too deep. -/
  | tooDeep (offset : Nat)
  deriving DecidableEq, Repr

def ParseError.message : ParseError → String
  | .unexpectedEnd => "unexpected end of input"
  | .unclosedList offset => s!"unmatched '(' at offset {offset}"
  | .unmatchedClose offset => s!"unmatched ')' at offset {offset}"
  | .danglingQuote offset => s!"quote at offset {offset} is not followed by a datum"
  | .emptyInput => "expected a single datum, found nothing"
  | .trailingInput offset => s!"expected a single datum, found more input at offset {offset}"
  | .tooDeep offset => s!"list nesting too deep at offset {offset}"

inductive ReadError where
  | lexical (error : LexError)
  | structural (error : ParseError)
  deriving DecidableEq, Repr

def ReadError.message : ReadError → String
  | .lexical error => error.message
  | .structural error => error.message

end EffectLisp
