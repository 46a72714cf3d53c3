import EffectLisp.Toml.Scalar

/-!
# Configuration files

A file is a sequence of lines: keys with values, headers of tables, comments
and empty lines.  Values may be arrays and inline tables, nested up to a limit,
and a key may have a limited number of parts.  `parse` reads a whole file or
refuses it.
-/

namespace EffectLisp.Toml

/-- How many arrays and inline tables may enclose a value, and how many parts a
key may have. -/
def nestingLimit : Nat := 79

/-- A letter, a digit, an underscore or a hyphen. -/
def isBareKey (c : Char) : Bool :=
  c.isAlphanum || c = '_' || c = '-'

/-- The characters after gaps. -/
def skipGaps (chars : List Char) : List Char :=
  chars.dropWhile isGap

/-- The characters after gaps, line ends and comments. -/
def skipLines (commented : Bool) : List Char → List Char
  | [] => []
  | '\r' :: '\n' :: chars => skipLines false chars
  | c :: chars =>
      if commented && isPlain c then skipLines true chars
      else if isGap c || c = '\n' then skipLines false chars
      else if c = '#' then skipLines true chars
      else c :: chars

/-- One part of a key: bare or quoted. -/
def keyPart? : List Char → Option (String × List Char)
  | '"' :: rest => basicFrom [] rest
  | '\'' :: rest => literalFrom [] rest
  | chars =>
      let part := chars.takeWhile isBareKey
      if part = [] then none else some (String.ofList part, chars.dropWhile isBareKey)

/-- A key with at most `room` parts, with gaps around each part. -/
def key? : Nat → List Char → Option (List String × List Char)
  | 0, _ => none
  | room + 1, chars => do
      let (part, rest) ← keyPart? (skipGaps chars)
      match skipGaps rest with
      | '.' :: rest => do
          let (parts, rest) ← key? room rest
          pure (part :: parts, rest)
      | rest => pure ([part], rest)

/-- The items of an array after the reversed items `done`, up to its closing
bracket, in at most so many steps. -/
def items? (value? : List Char → Option (Value × List Char)) :
    Nat → List Value → List Char → Option (Value × List Char)
  | 0, _, _ => none
  | steps + 1, done, chars =>
      match skipLines false chars with
      | ']' :: rest => some (.array done.reverse, rest)
      | chars => do
          let (v, rest) ← value? chars
          match skipLines false rest with
          | ',' :: rest => items? value? steps (v :: done) rest
          | ']' :: rest => some (.array (v :: done).reverse, rest)
          | _ => none

/-- A key, the sign of equality and a value. -/
def keyValue? (value? : List Char → Option (Value × List Char)) (chars : List Char) :
    Option (List String × Value × List Char) := do
  let (key, rest) ← key? nestingLimit chars
  let (v, rest) ← value? (skipGaps (← after? '=' rest))
  pure (key, v, skipGaps rest)

/-- The keys of an inline table from the first of them on, up to its closing
brace, in at most so many steps. -/
def inlineEntries? (value? : List Char → Option (Value × List Char)) :
    Nat → Entries → List Char → Option (Value × List Char)
  | 0, _, _ => none
  | steps + 1, entries, chars => do
      let (key, v, rest) ← keyValue? value? chars
      let entries ← entries.put key v
      match rest with
      | ',' :: rest => inlineEntries? value? steps entries rest
      | '\x7d' :: rest => some (.table (Node.values entries), rest)
      | _ => none

/-- A value inside of which so many levels of arrays and inline tables may
stand. -/
def value? : Nat → List Char → Option (Value × List Char)
  | 0, chars => scalar? chars
  | levels + 1, chars =>
      match chars with
      | '[' :: rest => items? (value? levels) (rest.length + 1) [] rest
      | '\x7b' :: rest =>
          match skipGaps rest with
          | '\x7d' :: rest => some (.table [], rest)
          | _ => inlineEntries? (value? levels) rest.length [] rest
      | _ => scalar? chars

/-- The characters after the end of a line, before which gaps and a comment may
stand. -/
def lineEnd? (chars : List Char) : Option (List Char) :=
  let rest := match skipGaps chars with
    | '#' :: comment => comment.dropWhile isPlain
    | rest => rest
  match rest with
  | [] => some []
  | '\n' :: rest => some rest
  | '\r' :: '\n' :: rest => some rest
  | _ => none

/-- The key of a header between its brackets. -/
def header? (closing : List Char) (chars : List Char) : Option (List String × List Char) := do
  let (key, rest) ← key? nestingLimit chars
  if closing.isPrefixOf rest then pure (key, rest.drop closing.length) else none

/-- Read lines, in at most so many steps, into the keys of a file, of which the
latest header names a table. -/
def lines? : Nat → List String → Entries → List Char → Option Entries
  | 0, _, _, _ => none
  | steps + 1, name, entries, chars =>
      match skipGaps chars with
      | [] => some entries
      | '[' :: '[' :: rest => do
          let (key, rest) ← header? [']', ']'] rest
          lines? steps key (← entries.openElement key) (← lineEnd? rest)
      | '[' :: rest => do
          let (key, rest) ← header? [']'] rest
          lines? steps key (← entries.openTable key) (← lineEnd? rest)
      | c :: rest =>
          if c = '\n' || c = '\r' || c = '#' then do
            lines? steps name entries (← lineEnd? (c :: rest))
          else do
            let (key, v, rest) ← keyValue? (value? nestingLimit) (c :: rest)
            lines? steps name (← entries.putInside name key v) (← lineEnd? rest)

/-- The characters without a mark of byte order in front. -/
def dropByteOrderMark : List Char → List Char
  | '\uFEFF' :: rest => rest
  | chars => chars

/-- A reader of whole files: the keys of a file and their values, or nothing for a
file that it refuses. -/
abbrev Parser := String → Option (List (String × Value))

def parse (text : String) : Option (List (String × Value)) := do
  let chars := dropByteOrderMark text.toList
  let entries ← lines? (chars.length + 1) [] [] chars
  pure (Node.values entries)

end EffectLisp.Toml
