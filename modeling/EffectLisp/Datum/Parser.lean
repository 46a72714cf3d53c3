import EffectLisp.Datum.Atom
import EffectLisp.Fault

/-!
# From tokens to data

    datum := literal | atom | quoteMark datum | opening datum* closing

A quote mark before a datum is short for a list of the symbol `quote` and the
datum.  Lists and quote marks count alike towards the nesting limit.

`datum?` and `items?` take tokens off the front of a sequence.  Their first
argument bounds the number of steps; two for each token and one more are always
enough, so the bound is never felt from outside.
-/

namespace EffectLisp.Datum

/-- The deepest nesting of lists and quote marks that is read or written. -/
def nestingLimit : Nat := 1024

/-- The list that a quote mark before a datum stands for. -/
def quoted (v : Value) : Value :=
  .list [.symbol "quote", v]

/-- Refuse the token at the offset if it opens a level beyond the limit. -/
def descend (depth offset : Nat) : Except ParseError Unit :=
  if nestingLimit ≤ depth then .error (.tooDeep offset) else .ok ()

mutual

/-- The datum in front of the tokens and the tokens after it. -/
def datum? : Nat → Nat → List Lexeme → Except ParseError (Value × List Lexeme)
  | 0, _, _ => .error .unexpectedEnd
  | _ + 1, _, [] => .error .unexpectedEnd
  | steps + 1, depth, ⟨token, offset⟩ :: rest =>
      match token with
      | .opening => do
          descend depth offset
          items? steps (depth + 1) offset [] rest
      | .closing => .error (.unmatchedClose offset)
      | .quoteMark =>
          if rest = [] then .error (.danglingQuote offset)
          else do
            descend depth offset
            let (v, rest) ← datum? steps (depth + 1) rest
            pure (quoted v, rest)
      | .literal text => .ok (.string text, rest)
      | .atom spelling => .ok (ofAtom spelling, rest)

/-- The list opened at the offset, of which the reversed items `done` are read,
up to its closing parenthesis, and the tokens after it. -/
def items? : Nat → Nat → Nat → List Value → List Lexeme →
    Except ParseError (Value × List Lexeme)
  | _, _, offset, _, [] => .error (.unclosedList offset)
  | _, _, _, done, ⟨.closing, _⟩ :: rest => .ok (.list done.reverse, rest)
  | 0, _, _, _, _ :: _ => .error .unexpectedEnd
  | steps + 1, depth, offset, done, lexeme :: rest =>
      match datum? steps depth (lexeme :: rest) with
      | .error error => .error error
      | .ok (v, rest) => items? steps depth offset (v :: done) rest

end

/-- Every datum of the tokens, after the reversed data `done`. -/
def allFrom : Nat → List Value → List Lexeme → Except ParseError (List Value)
  | _, done, [] => .ok done.reverse
  | 0, _, _ :: _ => .error .unexpectedEnd
  | steps + 1, done, lexeme :: rest =>
      match datum? steps 0 (lexeme :: rest) with
      | .error error => .error error
      | .ok (v, rest) => allFrom steps (v :: done) rest

def parseAll (tokens : List Lexeme) : Except ParseError (List Value) :=
  allFrom (2 * tokens.length) [] tokens

def parseOne (tokens : List Lexeme) : Except ParseError Value :=
  if tokens = [] then .error .emptyInput
  else do
    let (v, rest) ← datum? (2 * tokens.length) 0 tokens
    match rest with
    | [] => pure v
    | next :: _ => .error (.trailingInput next.offset)

end EffectLisp.Datum
