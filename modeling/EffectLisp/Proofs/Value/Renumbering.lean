import EffectLisp.Datum.Codec
import EffectLisp.Proofs.Datum.Canonical
import EffectLisp.Proofs.Datum.Refusal

/-!
# Values with other serial numbers

Serial numbers tell lambdas apart and mean nothing else.  `Value.renumber` changes the
numbers of all lambdas that a value holds anywhere, also inside of lambdas, and keeps
parameters, bodies and captured scopes.  What is read, printed and compared is the same
under other numbers, as long as different numbers stay different.

`Value.Inherited` is induction on values through the bodies and the scopes of lambdas.
-/

namespace EffectLisp

namespace Value

/-- The property passes to a value from the values in it. -/
structure Inherited (P : Value → Prop) : Prop where
  string : ∀ text, P (.string text)
  number : ∀ x, P (.number x)
  bool : ∀ b, P (.bool b)
  symbol : ∀ name, P (.symbol name)
  list : ∀ items, (∀ item ∈ items, P item) → P (.list items)
  primitive : ∀ p, P (.callable (.primitive p))
  lambda : ∀ l : Lambda Value, (∀ e ∈ l.body, P e) →
    (∀ frame ∈ l.scope.frames, ∀ binding ∈ frame, P binding.2) →
    P (.callable (.lambda l))

namespace Inherited

variable {P : Value → Prop}

mutual

theorem holds (inherited : Inherited P) (v : Value) : P v :=
  match v with
  | .string text => inherited.string text
  | .number x => inherited.number x
  | .bool b => inherited.bool b
  | .symbol name => inherited.symbol name
  | .list items => inherited.list items (inherited.holdsOf items)
  | .callable (.primitive p) => inherited.primitive p
  | .callable (.lambda ⟨serial, params, body, ⟨frames⟩⟩) =>
      inherited.lambda ⟨serial, params, body, ⟨frames⟩⟩
        (inherited.holdsOf body) (inherited.holdsIn frames)

theorem holdsOf (inherited : Inherited P) (items : List Value) : ∀ item ∈ items, P item :=
  match items with
  | [] => nofun
  | item :: items =>
      List.forall_mem_cons.mpr ⟨inherited.holds item, inherited.holdsOf items⟩

theorem holdsIn (inherited : Inherited P) (frames : List (List (String × Value))) :
    ∀ frame ∈ frames, ∀ binding ∈ frame, P binding.2 :=
  match frames with
  | [] => nofun
  | frame :: frames =>
      List.forall_mem_cons.mpr ⟨inherited.holdsInFrame frame, inherited.holdsIn frames⟩

theorem holdsInFrame (inherited : Inherited P) (frame : List (String × Value)) :
    ∀ binding ∈ frame, P binding.2 :=
  match frame with
  | [] => nofun
  | (_, v) :: rest =>
      List.forall_mem_cons.mpr ⟨inherited.holds v, inherited.holdsInFrame rest⟩

end

end Inherited

mutual

/-- The value with the serial numbers of all lambdas in it changed. -/
def renumber (f : Nat → Nat) : Value → Value
  | string text => string text
  | number x => number x
  | bool b => bool b
  | symbol name => symbol name
  | list items => list (renumberItems f items)
  | callable (.primitive p) => callable (.primitive p)
  | callable (.lambda ⟨serial, params, body, ⟨frames⟩⟩) =>
      callable (.lambda ⟨f serial, params, renumberItems f body, ⟨renumberFrames f frames⟩⟩)

def renumberItems (f : Nat → Nat) : List Value → List Value
  | [] => []
  | item :: items => item.renumber f :: renumberItems f items

def renumberFrames (f : Nat → Nat) :
    List (List (String × Value)) → List (List (String × Value))
  | [] => []
  | frame :: frames => renumberFrame f frame :: renumberFrames f frames

def renumberFrame (f : Nat → Nat) : List (String × Value) → List (String × Value)
  | [] => []
  | (name, v) :: rest => (name, v.renumber f) :: renumberFrame f rest

end

mutual

/-- The serial numbers of all lambdas in a value. -/
def serials : Value → List Nat
  | list items => serialsOf items
  | callable (.lambda ⟨serial, _, body, ⟨frames⟩⟩) =>
      serial :: (serialsOf body ++ serialsIn frames)
  | _ => []

def serialsOf : List Value → List Nat
  | [] => []
  | item :: items => item.serials ++ serialsOf items

def serialsIn : List (List (String × Value)) → List Nat
  | [] => []
  | frame :: frames => serialsInFrame frame ++ serialsIn frames

def serialsInFrame : List (String × Value) → List Nat
  | [] => []
  | (_, v) :: rest => v.serials ++ serialsInFrame rest

end

end Value

/-- The scope with every value in it changed. -/
def Scope.map {V W : Type} (g : V → W) (scope : Scope V) : Scope W :=
  ⟨scope.frames.map (·.map fun binding => (binding.1, g binding.2))⟩

def Lambda.renumber (f : Nat → Nat) (l : Lambda Value) : Lambda Value :=
  ⟨f l.serial, l.params, l.body.map (Value.renumber f), l.scope.map (Value.renumber f)⟩

def Callable.renumber (f : Nat → Nat) : Callable Value → Callable Value
  | .primitive p => .primitive p
  | .lambda l => .lambda (l.renumber f)

namespace Value

section Parts

variable (f : Nat → Nat)

theorem renumberItems_eq (items : List Value) :
    renumberItems f items = items.map (renumber f) := by
  induction items with
  | nil => rfl
  | cons item items induction => rw [renumberItems, induction, List.map_cons]

theorem renumberFrame_eq (frame : List (String × Value)) :
    renumberFrame f frame = frame.map fun binding => (binding.1, binding.2.renumber f) := by
  induction frame with
  | nil => rfl
  | cons binding rest induction => rw [renumberFrame, induction, List.map_cons]

theorem renumberFrames_eq (frames : List (List (String × Value))) :
    renumberFrames f frames =
      frames.map (·.map fun binding => (binding.1, binding.2.renumber f)) := by
  induction frames with
  | nil => rfl
  | cons frame frames induction =>
      rw [renumberFrames, renumberFrame_eq, induction, List.map_cons]

@[simp] theorem renumber_string (text : String) :
    (string text).renumber f = string text := by
  rw [renumber]

@[simp] theorem renumber_number (x : Float) : (number x).renumber f = number x := by
  rw [renumber]

@[simp] theorem renumber_bool (b : Bool) : (bool b).renumber f = bool b := by
  rw [renumber]

@[simp] theorem renumber_symbol (name : String) :
    (symbol name).renumber f = symbol name := by
  rw [renumber]

@[simp] theorem renumber_list (items : List Value) :
    (list items).renumber f = list (items.map (renumber f)) := by
  rw [renumber, renumberItems_eq]

@[simp] theorem renumber_callable (c : Callable Value) :
    (callable c).renumber f = callable (c.renumber f) := by
  cases c with
  | primitive p => rw [renumber, Callable.renumber]
  | lambda l =>
      obtain ⟨serial, params, body, ⟨frames⟩⟩ := l
      rw [renumber, renumberItems_eq, renumberFrames_eq]
      rfl

end Parts

theorem serialsOf_eq (items : List Value) : serialsOf items = items.flatMap serials := by
  induction items with
  | nil => rfl
  | cons item items induction => rw [serialsOf, induction, List.flatMap_cons]

theorem serialsInFrame_eq (frame : List (String × Value)) :
    serialsInFrame frame = frame.flatMap fun binding => binding.2.serials := by
  induction frame with
  | nil => rfl
  | cons binding rest induction => rw [serialsInFrame, induction, List.flatMap_cons]

theorem serialsIn_eq (frames : List (List (String × Value))) :
    serialsIn frames = frames.flatMap (·.flatMap fun binding => binding.2.serials) := by
  induction frames with
  | nil => rfl
  | cons frame frames induction =>
      rw [serialsIn, serialsInFrame_eq, induction, List.flatMap_cons]

@[simp] theorem serials_list (items : List Value) :
    (list items).serials = items.flatMap serials := by
  rw [serials, serialsOf_eq]

@[simp] theorem serials_lambda (l : Lambda Value) :
    (callable (.lambda l)).serials =
      l.serial :: (l.body.flatMap serials ++
        l.scope.frames.flatMap (·.flatMap fun binding => binding.2.serials)) := by
  obtain ⟨serial, params, body, ⟨frames⟩⟩ := l
  rw [serials, serialsOf_eq, serialsIn_eq]

theorem map_renumber_eq_self
    {f : Nat → Nat} {items : List Value} (each : ∀ item ∈ items, item.renumber f = item) :
    items.map (renumber f) = items := by
  rw [List.map_congr_left each, List.map_id']

theorem bindings_map_renumber_eq_self
    {f : Nat → Nat} {entries : List (String × Value)}
    (each : ∀ entry ∈ entries, entry.2.renumber f = entry.2) :
    entries.map (fun entry => (entry.1, entry.2.renumber f)) = entries := by
  have same : ∀ entry ∈ entries, (entry.1, entry.2.renumber f) = entry :=
    fun entry member => Prod.ext rfl (each entry member)
  rw [List.map_congr_left same, List.map_id']

theorem scope_map_renumber_eq_self
    {f : Nat → Nat} {scope : Scope Value}
    (each : ∀ frame ∈ scope.frames, ∀ binding ∈ frame,
      binding.2.renumber f = binding.2) :
    scope.map (renumber f) = scope := by
  have frames : ∀ frame ∈ scope.frames,
      frame.map (fun binding => (binding.1, binding.2.renumber f)) = frame :=
    fun frame around => bindings_map_renumber_eq_self (each frame around)
  rw [Scope.map, List.map_congr_left frames, List.map_id']

/-- A value is the same under other numbers for lambdas that it does not hold. -/
theorem renumber_eq_self
    {f : Nat → Nat} (v : Value) (fixed : ∀ n ∈ v.serials, f n = n) : v.renumber f = v := by
  have inherited : Inherited fun v => (∀ n ∈ v.serials, f n = n) → v.renumber f = v := by
    constructor
    case list =>
      intro items induction fixed
      rw [renumber_list, map_renumber_eq_self]
      intro item member
      apply induction item member
      intro n inside
      exact fixed n (by simpa using ⟨item, member, inside⟩)
    case lambda =>
      intro l body scope fixed
      rw [serials_lambda] at fixed
      have number : f l.serial = l.serial := fixed _ (by simp)
      have sameBody : l.body.map (renumber f) = l.body := by
        apply map_renumber_eq_self
        intro e member
        apply body e member
        intro n inside
        exact fixed n (by simpa using .inr (.inl ⟨e, member, inside⟩))
      have sameScope : l.scope.map (renumber f) = l.scope := by
        apply scope_map_renumber_eq_self
        intro frame around binding member
        apply scope frame around binding member
        intro n inside
        exact fixed n (by
          simp only [List.mem_cons, List.mem_append, List.mem_flatMap]
          exact .inr (.inr ⟨frame, around, binding, member, inside⟩))
      rw [renumber_callable, Callable.renumber, Lambda.renumber, number, sameBody, sameScope]
    all_goals
      intros
      simp [Callable.renumber]
  exact inherited.holds v fixed

/-- Every lambda in the value has a number before this one. -/
def MadeBefore (serial : Nat) (v : Value) : Prop :=
  ∀ n ∈ v.serials, n < serial

instance (serial : Nat) (v : Value) : Decidable (v.MadeBefore serial) :=
  inferInstanceAs (Decidable (∀ n ∈ v.serials, n < serial))

theorem sameItems_map_renumber
    {f : Nat → Nat} {items others : List Value}
    (each : ∀ item ∈ items, ∀ w, (item.renumber f).same (w.renumber f) = item.same w) :
    sameItems (items.map (renumber f)) (others.map (renumber f)) = sameItems items others := by
  induction items generalizing others with
  | nil => cases others <;> rfl
  | cons item items induction =>
      cases others with
      | nil => rfl
      | cons other others =>
          have first := each item (by simp) other
          have rest : sameItems (items.map (renumber f)) (others.map (renumber f)) =
              sameItems items others :=
            induction fun item member => each item (by simp [member])
          simp only [List.map_cons, sameItems, first, rest]

/-- Values are compared alike under other numbers, if different numbers stay different. -/
theorem same_renumber
    {f : Nat → Nat} (injective : ∀ m n, f m = f n → m = n) (v w : Value) :
    (v.renumber f).same (w.renumber f) = v.same w := by
  have inherited : Inherited fun v =>
      ∀ w, (v.renumber f).same (w.renumber f) = v.same w := by
    constructor
    case list =>
      intro items each w
      cases w with
      | list others =>
          simp only [renumber_list, same]
          exact sameItems_map_renumber each
      | _ => simp [same]
    case lambda =>
      intro l _ _ w
      cases w with
      | callable c =>
          cases c with
          | primitive p => simp [same, Callable.renumber, Callable.same]
          | lambda m =>
              have numbers : f l.serial = f m.serial ↔ l.serial = m.serial :=
                ⟨injective _ _, congrArg f⟩
              simp [same, Callable.renumber, Lambda.renumber, Callable.same, numbers]
      | _ => simp [same]
    all_goals
      intro a w
      cases w with
      | callable c => cases c <;> simp [same, Callable.renumber, Callable.same]
      | _ => simp [same]
  exact inherited.holds v w

section Printing

variable (f : Nat → Nat)

theorem itemsBefore_map_renumber
    {items : List Value} {rest : List Char}
    (each : ∀ item ∈ items, ∀ rest, (item.renumber f).charsBefore rest = item.charsBefore rest) :
    itemsBefore rest (items.map (renumber f)) = itemsBefore rest items := by
  match items with
  | [] => rfl
  | [item] => exact each item (by simp) _
  | item :: other :: items =>
      have later : itemsBefore rest ((other :: items).map (renumber f)) =
          itemsBefore rest (other :: items) :=
        itemsBefore_map_renumber fun item member => each item (List.mem_cons_of_mem _ member)
      rw [List.map_cons] at later
      rw [List.map_cons, List.map_cons, itemsBefore, itemsBefore, later]
      exact each item (by simp) _

/-- The text of a value tells no serial numbers. -/
theorem charsBefore_renumber (v : Value) (rest : List Char) :
    (v.renumber f).charsBefore rest = v.charsBefore rest := by
  have inherited : Inherited fun v =>
      ∀ rest, (v.renumber f).charsBefore rest = v.charsBefore rest := by
    constructor
    case list =>
      intro items each rest
      rw [renumber_list, charsBefore, charsBefore, itemsBefore_map_renumber f each]
    case lambda =>
      intro l _ _ rest
      rw [renumber_callable, charsBefore, charsBefore]
      rfl
    all_goals
      intros
      simp [Callable.renumber]
  exact inherited.holds v rest

theorem display_renumber (v : Value) : (v.renumber f).display = v.display := by
  rw [display, display, charsBefore_renumber]

end Printing

end Value

def Malformation.renumber (f : Nat → Nat) : Malformation → Malformation
  | parameterNotSymbol parameter => parameterNotSymbol (parameter.renumber f)
  | badBinding binding => badBinding (binding.renumber f)
  | other => other

/-- The fault with the numbers of lambdas in the values it is about changed. -/
def Fault.renumber (f : Nat → Nat) : Fault → Fault
  | typeMismatch expected got => typeMismatch expected (got.renumber f)
  | badForm form cause => badForm form (cause.renumber f)
  | other => other

def Fault.MadeBefore (serial : Nat) : Fault → Prop
  | typeMismatch _ got => got.MadeBefore serial
  | badForm _ (.parameterNotSymbol parameter) => parameter.MadeBefore serial
  | badForm _ (.badBinding binding) => binding.MadeBefore serial
  | _ => True

/-- The change of numbers that leaves out one: from it on every number is one more. -/
def skip (serial n : Nat) : Nat :=
  if n < serial then n else n + 1

section Skip

variable {serial : Nat}

theorem skip_injective (m n : Nat) (same : skip serial m = skip serial n) : m = n := by
  unfold skip at same
  split at same <;> split at same <;> omega

theorem Value.MadeBefore.renumber_skip {v : Value} (before : v.MadeBefore serial) :
    v.renumber (skip serial) = v :=
  v.renumber_eq_self fun n inside => if_pos (before n inside)

theorem Fault.MadeBefore.renumber_skip {reason : Fault} (before : reason.MadeBefore serial) :
    reason.renumber (skip serial) = reason := by
  cases reason with
  | typeMismatch expected got => exact congrArg _ (Value.MadeBefore.renumber_skip before)
  | badForm form cause =>
      cases cause with
      | parameterNotSymbol parameter =>
          have same := Value.MadeBefore.renumber_skip before
          rw [Fault.renumber, Malformation.renumber, same]
      | badBinding binding =>
          have same := Value.MadeBefore.renumber_skip before
          rw [Fault.renumber, Malformation.renumber, same]
      | _ => rfl
  | _ => rfl

end Skip

namespace Datum

variable {f : Nat → Nat}

theorem writeItems_map_renumber
    {depth : Nat} {items : List Value}
    (each : ∀ item ∈ items, ∀ depth,
      write depth (item.renumber f) = (write depth item).mapError (·.renumber f)) :
    writeItems depth (items.map (Value.renumber f)) =
      (writeItems depth items).mapError (·.renumber f) := by
  match items with
  | [] => rfl
  | [item] =>
      rw [List.map_cons, List.map_nil, writeItems, writeItems, each item (by simp),
        mapError_bind]
      rfl
  | item :: other :: items =>
      have later : writeItems depth ((other :: items).map (Value.renumber f)) =
          (writeItems depth (other :: items)).mapError (·.renumber f) :=
        writeItems_map_renumber fun item member => each item (List.mem_cons_of_mem _ member)
      rw [List.map_cons] at later
      rw [List.map_cons, List.map_cons, writeItems, writeItems, each item (by simp), later]
      simp only [mapError_bind]
      rfl

/-- What is written, and what is refused, is the same under other numbers. -/
theorem write_renumber (v : Value) (depth : Nat) :
    write depth (v.renumber f) = (write depth v).mapError (·.renumber f) := by
  have inherited : Value.Inherited fun v => ∀ depth,
      write depth (v.renumber f) = (write depth v).mapError (·.renumber f) := by
    constructor
    case list =>
      intro items each depth
      rw [Value.renumber_list, write, write]
      split
      · rfl
      · rw [writeItems_map_renumber each, mapError_bind]
        rfl
    case symbol =>
      intro name depth
      rw [Value.renumber_symbol, write]
      split
      · rfl
      · rw [Except.mapError, Fault.renumber, Value.renumber_symbol]
    case primitive =>
      intro p depth
      simp [write, Except.mapError, Fault.renumber]
    case lambda =>
      intro l _ _ depth
      simp [write, Except.mapError, Fault.renumber]
    all_goals
      intros
      simp [write, Except.mapError]
  exact inherited.holds v depth

theorem showValue_renumber (v : Value) :
    showValue (v.renumber f) = (showValue v).mapError (·.renumber f) := by
  rw [showValue, write_renumber, showValue, mapError_bind]
  rfl

theorem Writable.renumber_eq {depth : Nat} {v : Value} (writable : Writable depth v) :
    v.renumber f = v := by
  induction writable with
  | list _ _ each => rw [Value.renumber_list, Value.map_renumber_eq_self each]
  | _ => simp

/-- What is read holds no lambda. -/
theorem renumber_of_read {text : String} {v : Value} (result : read text = .ok v) :
    v.renumber f = v := by
  have writable : Writable 0 v := exists_read_iff.mp ⟨text, result⟩
  exact writable.renumber_eq

theorem read_renumber (text : String) :
    read text = ((read text).map (Value.renumber f)).mapError (·.renumber f) := by
  cases result : read text with
  | ok v => rw [Except.map, Except.mapError, renumber_of_read result]
  | error reason =>
      obtain ⟨e, rfl⟩ := eq_parseFailure_of_read result
      rfl

end Datum

end EffectLisp
