/-!
# Primitives

The built-in functions by name, and how many arguments each one takes.  What
they do is said in `EffectLisp.Eval.Primitives`; this module is the table that
a fresh context is filled from.
-/

namespace EffectLisp

inductive Arity where
  | exactly (count : Nat)
  | atLeast (count : Nat)
  deriving DecidableEq, Repr

namespace Arity

def accepts : Arity → Nat → Bool
  | exactly count, given => given = count
  | atLeast count, given => count ≤ given

/-- The count as an error message names it. -/
def text : Arity → String
  | exactly count => toString count
  | atLeast count => s!"at least {count}"

end Arity

inductive Primitive where
  | slurp
  | put
  | append
  | fileExists
  | wslurp
  | showValue
  | parseText
  | evalValue
  | add
  | subtract
  | multiply
  | divide
  | equal
  | less
  | greater
  | list
  | head
  | tail
  | cons
  | length
  | isNull
  | concat
  | lines
  deriving DecidableEq, Repr

namespace Primitive

/-- The name a program calls the function by. -/
def name : Primitive → String
  | slurp => "slurp"
  | put => "put"
  | append => "append"
  | fileExists => "fileExists"
  | wslurp => "wslurp"
  | showValue => "show"
  | parseText => "parse"
  | evalValue => "eval"
  | add => "+"
  | subtract => "-"
  | multiply => "*"
  | divide => "/"
  | equal => "="
  | less => "<"
  | greater => ">"
  | list => "list"
  | head => "head"
  | tail => "tail"
  | cons => "cons"
  | length => "length"
  | isNull => "null?"
  | concat => "concat"
  | lines => "lines"

def arity : Primitive → Arity
  | put | append | equal | less | greater | cons => .exactly 2
  | add | multiply | list | concat => .atLeast 0
  | subtract | divide => .atLeast 1
  | slurp | fileExists | wslurp | showValue | parseText | evalValue | head | tail | length
  | isNull | lines => .exactly 1

/-- Every primitive, in the order of the table: effects, text of values,
arithmetic, lists, strings. -/
def all : List Primitive :=
  [slurp, put, append, fileExists, wslurp, showValue, parseText, evalValue, add, subtract,
   multiply, divide, equal, less, greater, list, head, tail, cons, length, isNull, concat, lines]

def ofName? (name : String) : Option Primitive :=
  all.find? (·.name = name)

theorem mem_all (p : Primitive) : p ∈ all := by
  cases p <;> decide

theorem ofName?_eq_some_iff {name : String} {p : Primitive} :
    ofName? name = some p ↔ p.name = name := by
  constructor
  · intro found
    simpa using List.find?_some found
  · rintro rfl
    cases p <;> decide

end Primitive

end EffectLisp
