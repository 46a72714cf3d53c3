import EffectLisp.Fault

/-!
# Evaluation contexts

A context is a snapshot of what an expression is evaluated in: the global
bindings, a chain of local frames, the depth of the evaluation and its limit.
Every operation returns a new context.  A lambda keeps local frames only;
globals come from the context it is called in, so a definition can call itself.
-/

namespace EffectLisp

/-- Global bindings in the order they were first made. -/
structure Globals where
  entries : List (String × Value)

namespace Globals

def find? (globals : Globals) (name : String) : Option Value :=
  (globals.entries.find? (·.1 = name)).map (·.2)

def size (globals : Globals) : Nat :=
  globals.entries.length

/-- Bind a name in a list of bindings: in place if the name is there already. -/
def insertInto (name : String) (v : Value) : List (String × Value) → List (String × Value)
  | [] => [(name, v)]
  | entry :: entries =>
      if entry.1 = name then (name, v) :: entries else entry :: insertInto name v entries

/-- The globals with a name bound anew. -/
def insert (globals : Globals) (name : String) (v : Value) : Globals :=
  ⟨insertInto name v globals.entries⟩

/-- Every primitive under its name. -/
def builtins : Globals :=
  ⟨Primitive.all.map fun p => (p.name, .callable (.primitive p))⟩

@[simp]
theorem find?_insert_self (globals : Globals) (name : String) (v : Value) :
    (globals.insert name v).find? name = some v := by
  obtain ⟨entries⟩ := globals
  induction entries with
  | nil => simp [insert, insertInto, find?]
  | cons entry entries induction =>
      by_cases same : entry.1 = name
      · simp [insert, insertInto, find?, same]
      · simpa [insert, insertInto, find?, same] using induction

theorem find?_builtins (name : String) :
    builtins.find? name = (Primitive.ofName? name).map fun p => .callable (.primitive p) := by
  simp [find?, builtins, Primitive.ofName?, List.find?_map, Function.comp_def]

theorem find?_insert_of_ne (globals : Globals) {name other : String} (v : Value)
    (different : other ≠ name) :
    (globals.insert name v).find? other = globals.find? other := by
  obtain ⟨entries⟩ := globals
  induction entries with
  | nil => simp [insert, insertInto, find?, different.symm]
  | cons entry entries induction =>
      by_cases same : entry.1 = name
      · simp [insert, insertInto, find?, same, different.symm]
      · by_cases found : entry.1 = other
        · simp [insert, insertInto, find?, found, different]
        · simpa [insert, insertInto, find?, same, found] using induction

end Globals

/-- What an expression is evaluated in. -/
structure Context where
  globals : Globals
  scope : Scope Value
  depth : Nat
  maxDepth : Nat

namespace Context

/-- The limit of a context that is given none. -/
def defaultMaxDepth : Nat := 400

/-- A context with every primitive bound, and nothing else. -/
def root : Context :=
  ⟨Globals.builtins, .empty, 0, defaultMaxDepth⟩

def withMaxDepth (ctx : Context) (maxDepth : Nat) : Context :=
  { ctx with maxDepth }

/-- The value of a name: local frames first, from the innermost outward, then
globals. -/
def find? (ctx : Context) (name : String) : Option Value :=
  ctx.scope.find? name <|> ctx.globals.find? name

def isBound (ctx : Context) (name : String) : Bool :=
  (ctx.scope.find? name).isSome || (ctx.globals.find? name).isSome

def extend (ctx : Context) (frame : List (String × Value)) : Context :=
  { ctx with scope := ctx.scope.push frame }

/-- The context one level deeper with a given scope, unless that is beyond the
limit. -/
def enter (ctx : Context) (scope : Scope Value) : Except Fault Context :=
  if ctx.maxDepth < ctx.depth + 1 then .error (.recursionLimit ctx.maxDepth)
  else .ok { ctx with scope, depth := ctx.depth + 1 }

/-- The same bindings one level deeper, unless that is beyond the limit. -/
def nested (ctx : Context) : Except Fault Context :=
  ctx.enter ctx.scope

/-- The context with a global name bound anew. -/
def define (ctx : Context) (name : String) (v : Value) : Context :=
  { ctx with globals := ctx.globals.insert name v }

/-- How many levels are left below this one. -/
def room (ctx : Context) : Nat :=
  ctx.maxDepth - ctx.depth

def describe (ctx : Context) : String :=
  s!"Context \x7b globals: {ctx.globals.size}, depth: {ctx.depth}, max_depth: {ctx.maxDepth} \x7d"

@[simp]
theorem room_extend (ctx : Context) (frame : List (String × Value)) :
    (ctx.extend frame).room = ctx.room := rfl

theorem enter_eq_ok_iff {ctx inner : Context} {scope : Scope Value} :
    ctx.enter scope = .ok inner ↔
      ctx.depth + 1 ≤ ctx.maxDepth ∧ inner = { ctx with scope, depth := ctx.depth + 1 } := by
  unfold enter
  split
  · next beyond => exact ⟨nofun, fun within => absurd within.1 (Nat.not_le.mpr beyond)⟩
  · next within =>
      rw [Except.ok.injEq, eq_comm]
      exact ⟨fun same => ⟨Nat.not_lt.mp within, same⟩, And.right⟩

theorem enter_eq_error_iff {ctx : Context} {scope : Scope Value} {fault : Fault} :
    ctx.enter scope = .error fault ↔
      ctx.maxDepth < ctx.depth + 1 ∧ fault = .recursionLimit ctx.maxDepth := by
  unfold enter
  split
  · next beyond =>
      rw [Except.error.injEq, eq_comm]
      exact ⟨fun same => ⟨beyond, same⟩, And.right⟩
  · next within => exact ⟨nofun, fun beyond => absurd beyond.1 within⟩

theorem room_lt_of_enter {ctx inner : Context} {scope : Scope Value}
    (entered : ctx.enter scope = .ok inner) : inner.room < ctx.room := by
  obtain ⟨within, rfl⟩ := enter_eq_ok_iff.mp entered
  simp only [room]
  omega

theorem room_lt_of_nested {ctx inner : Context} (entered : ctx.nested = .ok inner) :
    inner.room < ctx.room :=
  room_lt_of_enter entered

theorem isBound_iff (ctx : Context) (name : String) :
    ctx.isBound name = (ctx.find? name).isSome := by
  unfold isBound find?
  cases ctx.scope.find? name <;> simp

end Context

end EffectLisp
