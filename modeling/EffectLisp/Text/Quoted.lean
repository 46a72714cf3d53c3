/-!
# Quoted text

A string literal stands between double quotes.  Inside it a backslash and the
character after it form an escape pair; five pairs are legal.  `encode` writes
the inside of a literal, `untilQuote` finds where a literal ends, and `decode?`
resolves the pairs of its inside.  The main facts are that a written inside is
found whole and resolves to the text it was written from.
-/

namespace EffectLisp.Text

/-- The character that the escape pair of a backslash and `letter` stands for. -/
def escapeMeaning? : Char → Option Char
  | '\\' => some '\\'
  | '"' => some '"'
  | 'n' => some '\n'
  | 't' => some '\t'
  | 'r' => some '\r'
  | _ => none

/-- A quote, a backslash, a line feed, a tab and a carriage return are written
as escape pairs; every other character stands for itself. -/
def escape : Char → List Char
  | '"' => ['\\', '"']
  | '\\' => ['\\', '\\']
  | '\n' => ['\\', 'n']
  | '\t' => ['\\', 't']
  | '\r' => ['\\', 'r']
  | c => [c]

/-- The inside of the literal that stands for the text. -/
def encode (text : List Char) : List Char :=
  text.flatMap escape

/-- Resolve the escape pairs of a literal's inside, after the reversed text
`done`.  An illegal pair or a backslash at the end has no meaning. -/
def decodeFrom (done : List Char) : List Char → Option (List Char)
  | [] => some done.reverse
  | '\\' :: letter :: inside =>
      match escapeMeaning? letter with
      | some c => decodeFrom (c :: done) inside
      | none => none
  | c :: inside => if c = '\\' then none else decodeFrom (c :: done) inside

/-- Resolve the escape pairs of a literal's inside. -/
def decode? (inside : List Char) : Option (List Char) :=
  decodeFrom [] inside

/-- Split at the first quote that no backslash escapes, after the reversed
characters `seen`. -/
def untilQuoteFrom (seen : List Char) : List Char → Option (List Char × List Char)
  | [] => none
  | '"' :: rest => some (seen.reverse, rest)
  | '\\' :: escaped :: rest => untilQuoteFrom (escaped :: '\\' :: seen) rest
  | c :: rest => untilQuoteFrom (c :: seen) rest

/-- What stands before and after the first quote that no backslash escapes;
nothing if there is no such quote. -/
def untilQuote (chars : List Char) : Option (List Char × List Char) :=
  untilQuoteFrom [] chars

def quote (text : List Char) : List Char :=
  '"' :: encode text ++ ['"']

@[simp]
theorem encode_nil : encode [] = [] := rfl

@[simp]
theorem encode_cons (c : Char) (text : List Char) :
    encode (c :: text) = escape c ++ encode text := by
  simp [encode]

theorem untilQuoteFrom_eq_some {seen chars before rest : List Char}
    (found : untilQuoteFrom seen chars = some (before, rest)) :
    ∃ inside, before = seen.reverse ++ inside ∧ chars = inside ++ '"' :: rest := by
  fun_induction untilQuoteFrom seen chars with
  | case1 => simp at found
  | case2 seen rest' =>
      obtain ⟨rfl, rfl⟩ := by simpa using found
      exact ⟨[], by simp⟩
  | case3 seen escaped tail induction =>
      obtain ⟨inside, rfl, rfl⟩ := induction found
      exact ⟨'\\' :: escaped :: inside, by simp⟩
  | case4 seen c tail _ _ induction =>
      obtain ⟨inside, rfl, rfl⟩ := induction found
      exact ⟨c :: inside, by simp⟩

/-- The two parts and the quote between them are the whole input. -/
theorem untilQuote_eq_some {chars before rest : List Char}
    (found : untilQuote chars = some (before, rest)) :
    chars = before ++ '"' :: rest := by
  obtain ⟨inside, rfl, rfl⟩ := untilQuoteFrom_eq_some found
  simp

end EffectLisp.Text
