import EffectLisp.Effect.Run
import EffectLisp.Datum.Codec
import EffectLisp.Text.Lines

/-!
# What the primitives do

A primitive gets values, checks their shapes from left to right, and only then
makes a request, if it makes one at all.  Each rule is written for the number of
arguments that the table of arities admits; with any other number a primitive
would reach past its arguments, which is a panic.

The primitive `eval` is not here: it needs the evaluator.
-/

namespace EffectLisp

/-- The computations of the evaluator, whose state is the next serial number. -/
abbrev Evaluation := Run Nat

namespace Primitive

def textOf (expected : Shape) : Value → Evaluation String
  | .string text => pure text
  | other => Run.fail (.typeMismatch expected other)

def numberOf : Value → Evaluation Float
  | .number x => pure x
  | other => Run.fail (.typeMismatch .number other)

def itemsOf : Value → Evaluation (List Value)
  | .list items => pure items
  | other => Run.fail (.typeMismatch .list other)

/-- The numbers of a list of values, all of them numbers. -/
def numbersOf : List Value → Evaluation (List Float)
  | [] => pure []
  | v :: vs => do
      let x ← numberOf v
      let xs ← numbersOf vs
      pure (x :: xs)

/-- The texts of a list of values, all of them strings. -/
def textsOf : List Value → Evaluation (List String)
  | [] => pure []
  | v :: vs => do
      let text ← textOf .string v
      let texts ← textsOf vs
      pure (text :: texts)

/-- Whether a path exists.  A bridge that answers anything but a boolean has
broken its contract. -/
def probe (path : String) : Evaluation Bool := do
  match ← Run.perform (.probe path) with
  | .bool found => pure found
  | other =>
      Run.fail (.internal
        ("existence probe of " ++ path ++ " answered " ++ other.display ++ " instead of a bool"))

/-- The text of a file that exists. -/
def readFile (path : String) : Evaluation Value := do
  if ← probe path then Run.perform (.read path)
  else Run.fail (.io ("slurp: file not found: " ++ path) path)

def writeFile (mode : WriteMode) (path content : Value) : Evaluation Value := do
  let path ← textOf .path path
  let content ← textOf .content content
  Run.perform (.write path content mode)

/-- The sum of numbers, from the left.  The sum of none is the negative zero,
which changes no sum it is part of. -/
def sum (xs : List Float) : Float :=
  xs.foldl (· + ·) (-0.0)

/-- The product of numbers, from the left. -/
def product (xs : List Float) : Float :=
  xs.foldl (· * ·) 1.0

/-- A lone number negated, or the first number less all others. -/
def difference : List Float → Float
  | [] => 0.0
  | [x] => -x
  | x :: xs => xs.foldl (· - ·) x

/-- The reciprocal of a lone number, or the first number divided by all others. -/
def quotient : List Float → Float
  | [] => 1.0
  | [x] => 1.0 / x
  | x :: xs => xs.foldl (· / ·) x

/-- How many items or characters a value has. -/
def lengthOf : Value → Evaluation Nat
  | .list items => pure items.length
  | .string text => pure text.length
  | other => Run.fail (.typeMismatch .listOrString other)

/-- Apply a primitive other than `eval` to its arguments. -/
def run : Primitive → List Value → Evaluation Value
  | slurp, [path] => do readFile (← textOf .string path)
  | put, [path, content] => writeFile .truncate path content
  | append, [path, content] => writeFile .append path content
  | fileExists, [path] => do pure (.bool (← probe (← textOf .string path)))
  | wslurp, [url] => do Run.perform (.fetch (← textOf .url url))
  | showValue, [v] => do pure (.string (← Run.ofExcept (Datum.showValue v)))
  | parseText, [text] => do Run.ofExcept (Datum.read (← textOf .string text))
  | add, args => do pure (.number (sum (← numbersOf args)))
  | multiply, args => do pure (.number (product (← numbersOf args)))
  | subtract, args => do pure (.number (difference (← numbersOf args)))
  | divide, args => do pure (.number (quotient (← numbersOf args)))
  | equal, [v, w] => pure (.bool (v.same w))
  | less, [v, w] => do
      let x ← numberOf v
      let y ← numberOf w
      pure (.bool (x < y))
  | greater, [v, w] => do
      let x ← numberOf v
      let y ← numberOf w
      pure (.bool (x > y))
  | list, args => pure (.list args)
  | head, [v] => do
      match ← itemsOf v with
      | first :: _ => pure first
      | [] => Run.fail (.typeMismatch .nonEmptyList v)
  | tail, [v] => do
      match ← itemsOf v with
      | _ :: rest => pure (.list rest)
      | [] => Run.fail (.typeMismatch .nonEmptyList v)
  | cons, [v, rest] => do pure (.list (v :: (← itemsOf rest)))
  | length, [v] => do pure (.number (Float.ofNat (← lengthOf v)))
  | isNull, [v] => do pure (.bool (← itemsOf v).isEmpty)
  | concat, args => do pure (.string (String.join (← textsOf args)))
  | lines, [text] => do pure (.list ((Text.lines (← textOf .string text)).map .string))
  | _, _ => Run.crash (.text "index out of bounds")

end Primitive

end EffectLisp
