import EffectLisp.Proofs.Number.Equality

/-!
# Equality is an equivalence

Equality of values goes by their shapes and parts.  It holds of a value and itself, also of
the number that is no number, and it can be turned round and chained, also through the two
zeros.
-/

namespace EffectLisp

theorem sameNumber_self (x : Float) : sameNumber x x = true :=
  (sameNumber_iff x x).mpr (.inl rfl)

theorem sameNumber_symm {x y : Float} (same : sameNumber x y = true) :
    sameNumber y x = true := by
  rw [sameNumber_iff] at same ⊢
  rcases same with rfl | ⟨zero, alsoZero⟩
  · exact .inl rfl
  · exact .inr ⟨alsoZero, zero⟩

theorem sameNumber_trans {x y z : Float}
    (first : sameNumber x y = true) (second : sameNumber y z = true) :
    sameNumber x z = true := by
  rw [sameNumber_iff] at first second ⊢
  rcases first with rfl | ⟨zero, alsoZero⟩
  · exact second
  · rcases second with rfl | ⟨-, last⟩
    · exact .inr ⟨zero, alsoZero⟩
    · exact .inr ⟨zero, last⟩

/-- A primitive is found by its name, so no two have one name. -/
theorem Primitive.name_injective : Function.Injective name := by
  intro p q named
  rw [← Option.some_inj, ← ofName?_eq_some_iff.mpr named, ofName?_eq_some_iff.mpr rfl]

namespace Callable

variable {V : Type}

theorem same_self (c : Callable V) : c.same c = true := by
  cases c <;> simp [Callable.same]

theorem same_symm {c d : Callable V} (same : c.same d = true) : d.same c = true := by
  cases c <;> cases d <;> simp_all [Callable.same]

theorem same_trans {c d e : Callable V}
    (first : c.same d = true) (second : d.same e = true) : c.same e = true := by
  cases c <;> cases d <;> cases e <;> simp_all [Callable.same]

/-- Primitives are the same where their names are. -/
theorem same_primitive_iff (p q : Primitive) :
    (primitive p : Callable V).same (primitive q) = true ↔ p.name = q.name := by
  rw [Callable.same, decide_eq_true_eq, Primitive.name_injective.eq_iff]

end Callable

namespace Value

mutual

theorem same_self (v : Value) : v.same v = true := by
  cases v with
  | string text => simp [same]
  | number x => exact sameNumber_self x
  | bool b => simp [same]
  | list items => exact sameItems_self items
  | symbol name => simp [same]
  | callable c => exact c.same_self

theorem sameItems_self (items : List Value) : sameItems items items = true := by
  cases items with
  | nil => rfl
  | cons item items => simp [sameItems, same_self item, sameItems_self items]

end

mutual

/-- The values have one shape, and their numbers and functions are the same in pairs. -/
inductive Equal : Value → Value → Prop where
  | string (text : String) : Equal (.string text) (.string text)
  | number {x y : Float} : sameNumber x y = true → Equal (.number x) (.number y)
  | bool (b : Bool) : Equal (.bool b) (.bool b)
  | list {items others : List Value} :
      EqualItems items others →
      Equal (.list items) (.list others)
  | symbol (name : String) : Equal (.symbol name) (.symbol name)
  | callable {c d : Callable Value} : c.same d = true → Equal (.callable c) (.callable d)

inductive EqualItems : List Value → List Value → Prop where
  | nil : EqualItems [] []
  | cons {item other : Value} {items others : List Value} :
      Equal item other →
      EqualItems items others →
      EqualItems (item :: items) (other :: others)

end

mutual

theorem Equal.of_same {v w : Value} (same : v.same w = true) : Equal v w := by
  cases v <;> cases w <;> simp only [Value.same, decide_eq_true_eq, Bool.false_eq_true] at same
  case string => exact same ▸ .string _
  case number => exact .number same
  case bool => exact same ▸ .bool _
  case list => exact .list (EqualItems.of_sameItems same)
  case symbol => exact same ▸ .symbol _
  case callable => exact .callable same

theorem EqualItems.of_sameItems {items others : List Value}
    (same : sameItems items others = true) : EqualItems items others := by
  cases items with
  | nil =>
      cases others with
      | nil => exact .nil
      | cons other others => cases same
  | cons item items =>
      cases others with
      | nil => cases same
      | cons other others =>
          rw [sameItems, Bool.and_eq_true] at same
          exact .cons (.of_same same.1) (.of_sameItems same.2)

end

mutual

theorem Equal.same {v w : Value} (equal : Equal v w) : v.same w = true := by
  cases equal with
  | string text => exact same_self _
  | number equal => exact equal
  | bool b => exact same_self _
  | list equal => exact equal.sameItems
  | symbol name => exact same_self _
  | callable equal => exact equal

theorem EqualItems.sameItems {items others : List Value} (equal : EqualItems items others) :
    sameItems items others = true := by
  cases equal with
  | nil => rfl
  | cons first later => rw [Value.sameItems, first.same, later.sameItems, Bool.and_self]

end

/-- Values are equal for programs if they have one shape and equal parts. -/
theorem beq_iff_equal {v w : Value} : (v == w) = true ↔ Equal v w :=
  ⟨Equal.of_same, Equal.same⟩

mutual

theorem Equal.symm {v w : Value} (equal : Equal v w) : Equal w v := by
  cases equal with
  | string text => exact .string text
  | number equal => exact .number (sameNumber_symm equal)
  | bool b => exact .bool b
  | list equal => exact .list equal.symm
  | symbol name => exact .symbol name
  | callable equal => exact .callable (Callable.same_symm equal)

theorem EqualItems.symm {items others : List Value} (equal : EqualItems items others) :
    EqualItems others items := by
  cases equal with
  | nil => exact .nil
  | cons first later => exact .cons first.symm later.symm

end

mutual

theorem Equal.trans {u v w : Value} (first : Equal u v) (second : Equal v w) : Equal u w := by
  cases first with
  | string text => exact second
  | number equal =>
      cases second with
      | number other => exact .number (sameNumber_trans equal other)
  | bool b => exact second
  | list equal =>
      cases second with
      | list other => exact .list (equal.trans other)
  | symbol name => exact second
  | callable equal =>
      cases second with
      | callable other => exact .callable (Callable.same_trans equal other)

theorem EqualItems.trans {items others further : List Value}
    (first : EqualItems items others) (second : EqualItems others further) :
    EqualItems items further := by
  cases first with
  | nil => exact second
  | cons equal later =>
      cases second with
      | cons other further => exact .cons (equal.trans other) (later.trans further)

end

theorem equivalence_beq : Equivalence fun v w : Value => (v == w) = true where
  refl := same_self
  symm equal := beq_iff_equal.mpr (beq_iff_equal.mp equal).symm
  trans first second := beq_iff_equal.mpr ((beq_iff_equal.mp first).trans (beq_iff_equal.mp second))

end Value

end EffectLisp
