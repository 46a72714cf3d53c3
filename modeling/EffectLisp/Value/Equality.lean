import EffectLisp.Value

/-!
# Equality of values

Values are equal when they have the same shape and equal parts.  Numbers
compare as numbers do, so the two zeros are equal, except that the number that
is no number equals itself.  Primitives are equal by name, lambdas only to
themselves.
-/

namespace EffectLisp

/-- Equality of numbers, which the number that is no number satisfies too. -/
def sameNumber (x y : Float) : Bool :=
  x == y || (x.isNaN && y.isNaN)

def Callable.same {V : Type} : Callable V → Callable V → Bool
  | .primitive p, .primitive q => p = q
  | .lambda l, .lambda m => l.serial = m.serial
  | _, _ => false

namespace Value

mutual

def same : Value → Value → Bool
  | string s, string t => s = t
  | number x, number y => sameNumber x y
  | bool a, bool b => a = b
  | list items, list others => sameItems items others
  | symbol name, symbol other => name = other
  | callable c, callable d => c.same d
  | _, _ => false

def sameItems : List Value → List Value → Bool
  | [], [] => true
  | item :: items, other :: others => same item other && sameItems items others
  | _, _ => false

end

instance : BEq Value := ⟨same⟩

end Value

end EffectLisp
