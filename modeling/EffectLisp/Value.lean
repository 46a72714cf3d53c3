import EffectLisp.Primitive

/-!
# Values

Programs and data share one type of values: a program is a tree of lists,
symbols and literals.  A function is either a primitive or a lambda, which
keeps the local scope it was made in.  Two lambdas are the same only if they
were made by the same evaluation of a `lambda` form, and each such evaluation
gives a fresh serial number.
-/

namespace EffectLisp

/-- A chain of local frames, innermost first.  Within a frame later bindings
hide earlier ones. -/
structure Scope (V : Type) where
  frames : List (List (String × V))

/-- A function of a program: its parameters, its body, and the scope it closed
over. -/
structure Lambda (V : Type) where
  serial : Nat
  params : List String
  body : List V
  scope : Scope V

inductive Callable (V : Type) where
  | primitive (p : Primitive)
  | lambda (l : Lambda V)

inductive Value where
  | string (text : String)
  | number (x : Float)
  | bool (b : Bool)
  | list (items : List Value)
  | symbol (name : String)
  | callable (c : Callable Value)

namespace Scope

variable {V : Type}

def empty : Scope V := ⟨[]⟩

def push (scope : Scope V) (frame : List (String × V)) : Scope V :=
  ⟨frame :: scope.frames⟩

/-- The value a frame binds a name to: the last binding counts. -/
def frameFind? (frame : List (String × V)) (name : String) : Option V :=
  (frame.reverse.find? (·.1 = name)).map (·.2)

/-- The value of a name in the innermost frame that binds it. -/
def find? (scope : Scope V) (name : String) : Option V :=
  scope.frames.findSome? (frameFind? · name)

end Scope

namespace Callable

variable {V : Type}

/-- The name that error messages give the function. -/
def name : Callable V → String
  | primitive p => p.name
  | lambda _ => "lambda"

/-- The text of a function, which cannot be read back. -/
def chars : Callable V → List Char
  | primitive p => "#<primitive ".toList ++ p.name.toList ++ ['>']
  | lambda l => "#<lambda (".toList ++ (" ".intercalate l.params).toList ++ ")>".toList

end Callable

namespace Value

/-- The empty list, for forms with nothing to return. -/
def unit : Value := list []

/-- The name of the value's type in error messages. -/
def typeName : Value → String
  | string _ => "string"
  | number _ => "number"
  | bool _ => "bool"
  | list _ => "list"
  | symbol _ => "symbol"
  | callable _ => "callable"

/-- Only the false boolean is false. -/
def isTruthy : Value → Bool
  | bool false => false
  | _ => true

mutual

/-- Whether the value holds no function anywhere. -/
def isSerializable : Value → Bool
  | callable _ => false
  | list items => areSerializable items
  | _ => true

/-- Whether none of the values holds a function. -/
def areSerializable : List Value → Bool
  | [] => true
  | item :: items => item.isSerializable && areSerializable items

end

end Value

end EffectLisp
