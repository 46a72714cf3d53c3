import EffectLisp.Number.Spelling
import EffectLisp.Toml.Table

/-!
# Strings, numbers and dates of a configuration file

Each reader takes a value off the front of the characters and returns it with
the rest, or nothing if no such value stands there.  What may follow a value is
checked by the caller, so a value that ends too early is refused there.
-/

namespace EffectLisp.Toml

/-- A space or a tab. -/
def isGap (c : Char) : Bool :=
  c = ' ' || c = '\t'

/-- A character that may stand for itself in a comment and, delimiters apart, in
a string. -/
def isPlain (c : Char) : Bool :=
  c = '\t' || (0x20 ≤ c.toNat && c.toNat ≠ 0x7F)

/-- The digit that a hexadecimal character stands for. -/
def hexValue? (c : Char) : Option Nat :=
  if c.isDigit then some (c.toNat - '0'.toNat)
  else if 'a' ≤ c && c ≤ 'f' then some (c.toNat - 'a'.toNat + 10)
  else if 'A' ≤ c && c ≤ 'F' then some (c.toNat - 'A'.toNat + 10)
  else none

def hexNumber? (digits : List Char) : Option Nat :=
  digits.foldlM (fun value c => do pure (16 * value + (← hexValue? c))) 0

/-- The character with the code point that hexadecimal digits spell. -/
def unicode? (digits : List Char) : Option Char := do
  let code ← hexNumber? digits
  if code.isValidChar then pure (Char.ofNat code) else none

/-- What a backslash and a letter stand for. -/
def escapeMeaning? : Char → Option Char
  | 'b' => some '\x08'
  | 't' => some '\t'
  | 'n' => some '\n'
  | 'f' => some '\x0c'
  | 'r' => some '\r'
  | '"' => some '"'
  | '\\' => some '\\'
  | _ => none

/-- The rest of a string in double quotes, after the reversed text `done`. -/
def basicFrom (done : List Char) : List Char → Option (String × List Char)
  | '"' :: rest => some (String.ofList done.reverse, rest)
  | '\\' :: 'u' :: a :: b :: c :: d :: rest => do
      basicFrom ((← unicode? [a, b, c, d]) :: done) rest
  | '\\' :: 'U' :: a :: b :: c :: d :: e :: f :: g :: h :: rest => do
      basicFrom ((← unicode? [a, b, c, d, e, f, g, h]) :: done) rest
  | '\\' :: letter :: rest => do basicFrom ((← escapeMeaning? letter) :: done) rest
  | c :: rest => if c ≠ '\\' && isPlain c then basicFrom (c :: done) rest else none
  | [] => none

/-- The rest of a string in single quotes, after the reversed text `done`. -/
def literalFrom (done : List Char) : List Char → Option (String × List Char)
  | '\'' :: rest => some (String.ofList done.reverse, rest)
  | c :: rest => if isPlain c then literalFrom (c :: done) rest else none
  | [] => none

/-- Whether a backslash before the characters ends its line. -/
def endsItsLine (chars : List Char) : Bool :=
  match chars.dropWhile isGap with
  | '\n' :: _ | '\r' :: '\n' :: _ => true
  | _ => false

/-- The rest of a string in three double quotes, after the reversed text
`done`.  Up to two quotes may stand before the closing ones.  While `folding`,
gaps and line ends are left out, as they are after a backslash that ends its
line. -/
def multilineBasicFrom (folding : Bool) (done : List Char) :
    List Char → Option (String × List Char)
  | '"' :: '"' :: '"' :: '"' :: '"' :: rest =>
      some (String.ofList ('"' :: '"' :: done).reverse, rest)
  | '"' :: '"' :: '"' :: '"' :: rest => some (String.ofList ('"' :: done).reverse, rest)
  | '"' :: '"' :: '"' :: rest => some (String.ofList done.reverse, rest)
  | '\\' :: 'u' :: a :: b :: c :: d :: rest => do
      multilineBasicFrom false ((← unicode? [a, b, c, d]) :: done) rest
  | '\\' :: 'U' :: a :: b :: c :: d :: e :: f :: g :: h :: rest => do
      multilineBasicFrom false ((← unicode? [a, b, c, d, e, f, g, h]) :: done) rest
  | '\\' :: letter :: rest =>
      if endsItsLine (letter :: rest) then multilineBasicFrom true done (letter :: rest)
      else do multilineBasicFrom false ((← escapeMeaning? letter) :: done) rest
  | '\r' :: '\n' :: rest =>
      multilineBasicFrom folding (if folding then done else '\n' :: done) rest
  | '\n' :: rest => multilineBasicFrom folding (if folding then done else '\n' :: done) rest
  | c :: rest =>
      if folding && isGap c then multilineBasicFrom true done rest
      else if c ≠ '\\' && isPlain c then multilineBasicFrom false (c :: done) rest
      else none
  | [] => none

/-- The rest of a string in three single quotes, after the reversed text
`done`. -/
def multilineLiteralFrom (done : List Char) : List Char → Option (String × List Char)
  | '\'' :: '\'' :: '\'' :: '\'' :: '\'' :: rest =>
      some (String.ofList ('\'' :: '\'' :: done).reverse, rest)
  | '\'' :: '\'' :: '\'' :: '\'' :: rest => some (String.ofList ('\'' :: done).reverse, rest)
  | '\'' :: '\'' :: '\'' :: rest => some (String.ofList done.reverse, rest)
  | '\r' :: '\n' :: rest => multilineLiteralFrom ('\n' :: done) rest
  | c :: rest =>
      if c = '\n' || isPlain c then multilineLiteralFrom (c :: done) rest else none
  | [] => none

/-- The characters without a line end in front. -/
def dropLineEnd : List Char → List Char
  | '\n' :: rest => rest
  | '\r' :: '\n' :: rest => rest
  | chars => chars

/-- A string of any of the four kinds. -/
def string? : List Char → Option (String × List Char)
  | '"' :: '"' :: '"' :: rest => multilineBasicFrom false [] (dropLineEnd rest)
  | '\'' :: '\'' :: '\'' :: rest => multilineLiteralFrom [] (dropLineEnd rest)
  | '"' :: rest => basicFrom [] rest
  | '\'' :: rest => literalFrom [] rest
  | _ => none

/-- The digits without the underscores between them, if every underscore stands
between two digits. -/
def plainDigits? : List Char → Option (List Char)
  | [] => none
  | c :: rest =>
      if c = '_' then none
      else
        match rest with
        | [] => some [c]
        | '_' :: more => (plainDigits? more).map (c :: ·)
        | more => (plainDigits? more).map (c :: ·)

/-- Digits of a class with underscores between them. -/
def digits? (isDigit : Char → Bool) (chars : List Char) : Option (List Char × List Char) := do
  let written := fun c => isDigit c || c = '_'
  let digits ← plainDigits? (chars.takeWhile written)
  pure (digits, chars.dropWhile written)

/-- An exponent with its letter. -/
def exponent? : List Char → Option (List Char × List Char)
  | letter :: chars =>
      if letter = 'e' || letter = 'E' then do
        let (sign, unsigned) := match chars with
          | '+' :: rest => (['+'], rest)
          | '-' :: rest => (['-'], rest)
          | rest => ([], rest)
        let (digits, rest) ← digits? Char.isDigit unsigned
        pure (letter :: sign ++ digits, rest)
      else none
  | [] => none

/-- The value of a number with a point or an exponent.  One too large to be
finite is refused, unless it is negative. -/
def floatOf? (spelling : List Char) (rest : List Char) : Option (Value × List Char) := do
  let x ← Number.ofChars? spelling
  if x.isInf && !Number.isNegative x then none else pure (.float x, rest)

/-- The range of integers. -/
def integerOf? (n : Int) (rest : List Char) : Option (Value × List Char) :=
  if -2 ^ 63 ≤ n && n < 2 ^ 63 then some (.integer n, rest) else none

/-- An integer in base sixteen, eight or two, after its mark. -/
def basedInteger? (base : Nat) (chars : List Char) : Option (Value × List Char) := do
  let isDigit := fun c => match hexValue? c with
    | some value => value < base
    | none => false
  let (digits, rest) ← digits? isDigit chars
  let value := digits.foldl (fun value c => base * value + (hexValue? c).getD 0) 0
  integerOf? value rest

/-- A decimal number after its sign. -/
def decimal? (sign : List Char) (negative : Bool) (chars : List Char) :
    Option (Value × List Char) := do
  let (whole, rest) ← digits? Char.isDigit chars
  if whole.length ≠ 1 && whole.head? = some '0' then none
  else
    match rest with
    | '.' :: rest => do
        let (fraction, rest) ← digits? Char.isDigit rest
        let spelling := sign ++ whole ++ '.' :: fraction
        match exponent? rest with
        | some (exponent, rest) => floatOf? (spelling ++ exponent) rest
        | none =>
            match rest with
            | 'e' :: _ | 'E' :: _ => none
            | rest => floatOf? spelling rest
    | 'e' :: _ | 'E' :: _ => do
        let (exponent, rest) ← exponent? rest
        floatOf? (sign ++ whole ++ exponent) rest
    | rest =>
        let n : Int := Number.digitsValue whole
        integerOf? (if negative then -n else n) rest

/-- A number that may not be finite, after its sign. -/
def signedNumber? (sign : List Char) (negative : Bool) :
    List Char → Option (Value × List Char)
  | 'i' :: 'n' :: 'f' :: rest =>
      some (.float (Number.ofMagnitude negative Number.infinityBits), rest)
  | 'n' :: 'a' :: 'n' :: rest => some (.float (0.0 / 0.0), rest)
  | chars => decimal? sign negative chars

def number? : List Char → Option (Value × List Char)
  | '0' :: 'x' :: rest => basedInteger? 16 rest
  | '0' :: 'o' :: rest => basedInteger? 8 rest
  | '0' :: 'b' :: rest => basedInteger? 2 rest
  | '+' :: rest => signedNumber? ['+'] false rest
  | '-' :: rest => signedNumber? ['-'] true rest
  | chars => signedNumber? [] false chars

/-- Exactly so many decimal digits, as a number in a range. -/
def field? (places least most : Nat) (chars : List Char) : Option (Nat × List Char) :=
  let digits := chars.take places
  let value := Number.digitsValue digits
  if digits.length = places && digits.all Char.isDigit && least ≤ value && value ≤ most then
    some (value, chars.drop places)
  else none

/-- The rest after a certain character. -/
def after? (c : Char) : List Char → Option (List Char)
  | head :: rest => if head = c then some rest else none
  | [] => none

/-- How many days a month has. -/
def daysIn (year month : Nat) : Nat :=
  match month with
  | 2 => if year % 4 = 0 && (year % 100 ≠ 0 || year % 400 = 0) then 29 else 28
  | 4 | 6 | 9 | 11 => 30
  | _ => 31

def date? (chars : List Char) : Option (List Char) := do
  let (year, chars) ← field? 4 0 9999 chars
  let (month, chars) ← field? 2 1 12 (← after? '-' chars)
  let (_, chars) ← field? 2 1 (daysIn year month) (← after? '-' chars)
  pure chars

/-- The rest after a fraction of a second, if one stands there. -/
def skipFraction (chars : List Char) : List Char :=
  match chars with
  | '.' :: c :: rest => if c.isDigit then rest.dropWhile Char.isDigit else chars
  | _ => chars

/-- The rest after a time of day; a minute may have a leap second. -/
def time? (chars : List Char) : Option (List Char) := do
  let (_, chars) ← field? 2 0 23 chars
  let (_, chars) ← field? 2 0 59 (← after? ':' chars)
  let (_, chars) ← field? 2 0 60 (← after? ':' chars)
  pure (skipFraction chars)

/-- The rest after the distance from universal time, if one stands there. -/
def skipOffset (chars : List Char) : List Char :=
  match chars with
  | 'Z' :: rest | 'z' :: rest => rest
  | '+' :: rest | '-' :: rest =>
      let offset : Option (List Char) := do
        let (_, chars) ← field? 2 0 23 rest
        let (_, chars) ← field? 2 0 59 (← after? ':' chars)
        pure chars
      offset.getD chars
  | _ => chars

/-- The rest after a time that follows a date, if one stands there. -/
def skipTime (chars : List Char) : List Char :=
  match chars with
  | c :: rest =>
      if c = 'T' || c = 't' || c = ' ' then
        match time? rest with
        | some rest => skipOffset rest
        | none => chars
      else chars
  | [] => []

def dateTime? (chars : List Char) : Option (Value × List Char) := do
  let rest ← match date? chars with
    | some rest => some (skipTime rest)
    | none => time? chars
  pure (.dateTime (String.ofList (chars.take (chars.length - rest.length))), rest)

/-- A value that holds no other values. -/
def scalar? (chars : List Char) : Option (Value × List Char) :=
  match chars with
  | '"' :: _ | '\'' :: _ => (string? chars).map fun (text, rest) => (.string text, rest)
  | 't' :: 'r' :: 'u' :: 'e' :: rest => some (.boolean true, rest)
  | 'f' :: 'a' :: 'l' :: 's' :: 'e' :: rest => some (.boolean false, rest)
  | _ => dateTime? chars <|> number? chars

end EffectLisp.Toml
