import EffectLisp.Context

/-!
# What names mean in a context

A context is made from the root by steps, and the steps tell what it is: which frames
surround it, what is defined in it, how deep it is and what its limit is.  A name means what
the innermost of the frames that bind it says, else its latest definition on the way, else
the primitive of that name.

Where a context is entered the two origins part.  Its frames are those of the context whose
scope it takes; its definitions, its depth and its limit stay those of the context entered.
-/

namespace EffectLisp

namespace Scope

variable {V : Type} {name : String}

/-- No binding of a frame is of the name. -/
def Misses (name : String) (frame : List (String × V)) : Prop :=
  ∀ binding ∈ frame, binding.1 ≠ name

theorem frameFind?_eq_none_iff {frame : List (String × V)} :
    frameFind? frame name = none ↔ Misses name frame := by
  simp [frameFind?, Misses]

theorem frameFind?_eq_some_iff {frame : List (String × V)} {v : V} :
    frameFind? frame name = some v ↔
      ∃ before after, frame = before ++ (name, v) :: after ∧ Misses name after := by
  rw [frameFind?, Option.map_eq_some_iff]
  constructor
  · intro given
    obtain ⟨⟨other, w⟩, found, rfl⟩ := given
    rw [List.find?_eq_some_iff_append] at found
    obtain ⟨same, after, before, divided, missed⟩ := found
    have same : other = name := of_decide_eq_true same
    subst same
    refine ⟨before.reverse, after.reverse, ?_, ?_⟩
    · rw [← List.reverse_inj, divided]
      simp
    · intro binding member
      simpa using missed binding (List.mem_reverse.mp member)
  · intro given
    obtain ⟨before, after, rfl, missed⟩ := given
    refine ⟨(name, v), ?_, rfl⟩
    rw [List.find?_eq_some_iff_append]
    refine ⟨decide_eq_true rfl, after.reverse, before.reverse, by simp, ?_⟩
    intro binding member
    simpa using missed binding (List.mem_reverse.mp member)

theorem find?_eq_none_iff {scope : Scope V} :
    scope.find? name = none ↔ ∀ frame ∈ scope.frames, Misses name frame := by
  simp only [find?, List.findSome?_eq_none_iff, frameFind?_eq_none_iff]

theorem find?_eq_some_iff {scope : Scope V} {v : V} :
    scope.find? name = some v ↔
      ∃ inner before after outer,
        scope.frames = inner ++ (before ++ (name, v) :: after) :: outer ∧
          (∀ frame ∈ inner, Misses name frame) ∧ Misses name after := by
  rw [find?, List.findSome?_eq_some_iff]
  simp only [frameFind?_eq_none_iff, frameFind?_eq_some_iff]
  constructor
  · intro given
    obtain ⟨inner, frame, outer, divided, ⟨before, after, rfl, missed⟩, hidden⟩ := given
    exact ⟨inner, before, after, outer, divided, hidden, missed⟩
  · intro given
    obtain ⟨inner, before, after, outer, divided, hidden, missed⟩ := given
    exact ⟨inner, _, outer, divided, ⟨before, after, rfl, missed⟩, hidden⟩

end Scope

namespace Context

/-- A step on the way from the root to a context.  A source, whose scope is taken, is given
by the steps that led there. -/
inductive Step where
  | define (name : String) (v : Value)
  | extend (frame : List (String × Value))
  | nested
  | enter (source : List Step)
  | withMaxDepth (maxDepth : Nat)

/-- The context is made by the steps, the latest of which comes first. -/
inductive Built : List Step → Context → Prop where
  | root : Built [] root
  | define {path : List Step} {ctx : Context} (name : String) (v : Value) :
      Built path ctx → Built (.define name v :: path) (ctx.define name v)
  | extend {path : List Step} {ctx : Context} (frame : List (String × Value)) :
      Built path ctx → Built (.extend frame :: path) (ctx.extend frame)
  | nested {path : List Step} {ctx inner : Context} :
      Built path ctx → ctx.nested = .ok inner → Built (.nested :: path) inner
  | enter {path source : List Step} {ctx other inner : Context} :
      Built path ctx → Built source other → ctx.enter other.scope = .ok inner →
      Built (.enter source :: path) inner
  | withMaxDepth {path : List Step} {ctx : Context} (maxDepth : Nat) :
      Built path ctx → Built (.withMaxDepth maxDepth :: path) (ctx.withMaxDepth maxDepth)

mutual

/-- The frames after a step, given those before it. -/
def Step.frames (outer : List (List (String × Value))) : Step → List (List (String × Value))
  | .extend frame => frame :: outer
  | .enter source => framesOf source
  | .define .. | .nested | .withMaxDepth _ => outer

/-- The local frames at the end of a path, innermost first. -/
def framesOf : List Step → List (List (String × Value))
  | [] => []
  | step :: path => step.frames (framesOf path)

end

namespace Step

/-- The value that a step defines a global name with. -/
def definition? (name : String) : Step → Option Value
  | define other v => if other = name then some v else none
  | _ => none

/-- The limit that a step sets. -/
def limit? : Step → Option Nat
  | withMaxDepth maxDepth => some maxDepth
  | _ => none

/-- Whether a step leads one level deeper. -/
def isDescent : Step → Bool
  | nested | enter _ => true
  | _ => false

theorem definition?_eq_some_iff {name : String} {step : Step} {v : Value} :
    step.definition? name = some v ↔ step = .define name v := by
  cases step with
  | define other w =>
      by_cases same : other = name
      · simp [definition?, same]
      · simp [definition?, same]
  | _ => simp [definition?]

theorem definition?_eq_none_iff {name : String} {step : Step} :
    step.definition? name = none ↔ ∀ v, step ≠ .define name v := by
  rw [Option.eq_none_iff_forall_ne_some]
  simp only [ne_eq, definition?_eq_some_iff]

end Step

/-- The limit in force at the end of a path: the latest that was set. -/
def limitOn (path : List Step) : Nat :=
  (path.findSome? Step.limit?).getD defaultMaxDepth

/-- How many steps of a path lead one level deeper. -/
def descents (path : List Step) : Nat :=
  path.countP Step.isDescent

/-- What a name means at the end of a path, if anything. -/
inductive Means (path : List Step) (name : String) : Option Value → Prop where
  /-- The last binding in the innermost frame that has one. -/
  | localValue {inner outer : List (List (String × Value))}
      {before after : List (String × Value)} {v : Value} :
      framesOf path = inner ++ (before ++ (name, v) :: after) :: outer →
      (∀ frame ∈ inner, Scope.Misses name frame) → Scope.Misses name after →
      Means path name (some v)
  /-- The latest definition. -/
  | globalValue {later earlier : List Step} {v : Value} :
      (∀ frame ∈ framesOf path, Scope.Misses name frame) →
      path = later ++ .define name v :: earlier → (∀ w, .define name w ∉ later) →
      Means path name (some v)
  | primitive {p : Primitive} :
      (∀ frame ∈ framesOf path, Scope.Misses name frame) → (∀ w, .define name w ∉ path) →
      p.name = name → Means path name (some (.callable (.primitive p)))
  | unbound :
      (∀ frame ∈ framesOf path, Scope.Misses name frame) → (∀ w, .define name w ∉ path) →
      (∀ p : Primitive, p.name ≠ name) → Means path name none

section Lookup

variable {path : List Step} {name : String}

theorem findSome?_definition?_eq_none_iff :
    path.findSome? (Step.definition? name) = none ↔ ∀ v, .define name v ∉ path := by
  simp only [List.findSome?_eq_none_iff, Step.definition?_eq_none_iff]
  constructor
  · intro missing v member
    exact missing _ member v rfl
  · intro missing step member v defines
    subst defines
    exact missing v member

theorem findSome?_definition?_eq_some_iff {v : Value} :
    path.findSome? (Step.definition? name) = some v ↔
      ∃ later earlier, path = later ++ .define name v :: earlier ∧
        ∀ w, .define name w ∉ later := by
  rw [List.findSome?_eq_some_iff]
  simp only [Step.definition?_eq_some_iff, ← List.findSome?_eq_none_iff,
    findSome?_definition?_eq_none_iff]
  constructor
  · intro given
    obtain ⟨later, step, earlier, divided, rfl, last⟩ := given
    exact ⟨later, earlier, divided, last⟩
  · intro given
    obtain ⟨later, earlier, divided, last⟩ := given
    exact ⟨later, _, earlier, divided, rfl, last⟩

/-- A name has a meaning on every path, even if that is none. -/
theorem exists_means (path : List Step) (name : String) : ∃ found, Means path name found := by
  by_cases missed : ∀ frame ∈ framesOf path, Scope.Misses name frame
  · by_cases undefined : ∀ v, .define name v ∉ path
    · cases named : Primitive.ofName? name with
      | some p => exact ⟨_, .primitive missed undefined (Primitive.ofName?_eq_some_iff.mp named)⟩
      | none =>
          refine ⟨none, .unbound missed undefined fun p same => ?_⟩
          rw [Primitive.ofName?_eq_some_iff.mpr same] at named
          cases named
    · have something := mt findSome?_definition?_eq_none_iff.mp undefined
      obtain ⟨v, defined⟩ := Option.ne_none_iff_exists'.mp something
      obtain ⟨later, earlier, divided, last⟩ := findSome?_definition?_eq_some_iff.mp defined
      exact ⟨some v, .globalValue missed divided last⟩
  · have something : (Scope.mk (framesOf path)).find? name ≠ none :=
      mt Scope.find?_eq_none_iff.mp missed
    obtain ⟨v, bound⟩ := Option.ne_none_iff_exists'.mp something
    obtain ⟨inner, before, after, outer, divided, hidden, last⟩ :=
      Scope.find?_eq_some_iff.mp bound
    exact ⟨some v, .localValue divided hidden last⟩

end Lookup

/-- The context is what its path says. -/
structure Accords (path : List Step) (ctx : Context) : Prop where
  frames : ctx.scope.frames = framesOf path
  globals : ∀ name, ctx.globals.find? name =
    (path.findSome? (Step.definition? name)).or (Globals.builtins.find? name)
  depth : ctx.depth = descents path
  maxDepth : ctx.maxDepth = limitOn path

namespace Accords

variable {path : List Step} {ctx : Context}

theorem root : Accords [] root where
  frames := rfl
  globals _ := rfl
  depth := rfl
  maxDepth := rfl

theorem define (accords : Accords path ctx) (name : String) (v : Value) :
    Accords (.define name v :: path) (ctx.define name v) where
  frames := accords.frames
  globals asked := by
    by_cases same : asked = name
    · subst same
      simp [Context.define, Step.definition?]
    · have other : name ≠ asked := Ne.symm same
      rw [Context.define, Globals.find?_insert_of_ne _ _ same, accords.globals]
      simp [Step.definition?, other]
  depth := accords.depth
  maxDepth := accords.maxDepth

theorem extend (accords : Accords path ctx) (frame : List (String × Value)) :
    Accords (.extend frame :: path) (ctx.extend frame) where
  frames := congrArg (frame :: ·) accords.frames
  globals := accords.globals
  depth := accords.depth
  maxDepth := accords.maxDepth

theorem withMaxDepth (accords : Accords path ctx) (maxDepth : Nat) :
    Accords (.withMaxDepth maxDepth :: path) (ctx.withMaxDepth maxDepth) where
  frames := accords.frames
  globals := accords.globals
  depth := accords.depth
  maxDepth := rfl

theorem enter {inner : Context} {scope : Scope Value} {source : List Step}
    (accords : Accords path ctx) (frames : scope.frames = framesOf source)
    (entered : ctx.enter scope = .ok inner) : Accords (.enter source :: path) inner := by
  obtain ⟨-, rfl⟩ := enter_eq_ok_iff.mp entered
  constructor
  · exact frames
  · exact accords.globals
  · rw [descents, List.countP_cons_of_pos rfl]
    exact congrArg (· + 1) accords.depth
  · exact accords.maxDepth

theorem nested {inner : Context} (accords : Accords path ctx)
    (entered : ctx.nested = .ok inner) : Accords (.nested :: path) inner := by
  obtain ⟨-, rfl⟩ := enter_eq_ok_iff.mp entered
  constructor
  · exact accords.frames
  · exact accords.globals
  · rw [descents, List.countP_cons_of_pos rfl]
    exact congrArg (· + 1) accords.depth
  · exact accords.maxDepth

theorem find?_of_means (accords : Accords path ctx) {name : String} {found : Option Value}
    (means : Means path name found) : ctx.find? name = found := by
  -- Without a frame that has the name it is up to the definitions and the primitives.
  have global_of_missed (missed : ∀ frame ∈ framesOf path, Scope.Misses name frame) :
      ctx.find? name =
        (path.findSome? (Step.definition? name)).or
          ((Primitive.ofName? name).map fun p => .callable (.primitive p)) := by
    rw [← accords.frames, ← Scope.find?_eq_none_iff] at missed
    rw [find?, missed, accords.globals, Globals.find?_builtins]
    rfl
  cases means with
  | localValue divided hidden last =>
      rw [← accords.frames] at divided
      rw [find?, Scope.find?_eq_some_iff.mpr ⟨_, _, _, _, divided, hidden, last⟩]
      rfl
  | globalValue missed divided last =>
      rw [global_of_missed missed, findSome?_definition?_eq_some_iff.mpr ⟨_, _, divided, last⟩]
      rfl
  | primitive missed undefined named =>
      rw [global_of_missed missed, findSome?_definition?_eq_none_iff.mpr undefined,
        Primitive.ofName?_eq_some_iff.mpr named]
      rfl
  | unbound missed undefined unnamed =>
      have noPrimitive : Primitive.ofName? name = none :=
        Option.eq_none_iff_forall_ne_some.mpr fun p named =>
          unnamed p (Primitive.ofName?_eq_some_iff.mp named)
      rw [global_of_missed missed, findSome?_definition?_eq_none_iff.mpr undefined, noPrimitive]
      rfl

/-- What a name is looked up as is what it means. -/
theorem find?_eq_iff (accords : Accords path ctx) {name : String} {found : Option Value} :
    ctx.find? name = found ↔ Means path name found := by
  constructor
  · intro looked
    obtain ⟨meant, means⟩ := exists_means path name
    rwa [← looked, accords.find?_of_means means]
  · exact accords.find?_of_means

end Accords

namespace Built

variable {path : List Step} {ctx : Context}

theorem accords (built : Built path ctx) : Accords path ctx := by
  induction built with
  | root => exact .root
  | define name v _ accords => exact accords.define name v
  | extend frame _ accords => exact accords.extend frame
  | nested _ entered accords => exact accords.nested entered
  | enter _ _ entered accords other =>
      -- Nothing but the frames is taken over from the source.
      exact accords.enter other.frames entered
  | withMaxDepth maxDepth _ accords => exact accords.withMaxDepth maxDepth

theorem exists_before {step : Step} (built : Built (step :: path) ctx) :
    ∃ before, Built path before := by
  cases built with
  | define _ _ front => exact ⟨_, front⟩
  | extend _ front => exact ⟨_, front⟩
  | nested front _ => exact ⟨_, front⟩
  | enter front _ _ => exact ⟨_, front⟩
  | withMaxDepth _ front => exact ⟨_, front⟩

theorem exists_earlier {later earlier : List Step} (built : Built (later ++ earlier) ctx) :
    ∃ before, Built earlier before := by
  induction later generalizing ctx with
  | nil => exact ⟨ctx, built⟩
  | cons step later induction =>
      obtain ⟨before, front⟩ := built.exists_before
      exact induction front

/-- A step that led one level deeper stayed within the limit in force before it. -/
theorem descents_lt_of_isDescent {step : Step} (built : Built (step :: path) ctx)
    (descends : step.isDescent = true) : descents path + 1 ≤ limitOn path := by
  have within {before : Context} {scope : Scope Value} (front : Built path before)
      (entered : before.enter scope = .ok ctx) : descents path + 1 ≤ limitOn path := by
    rw [← front.accords.depth, ← front.accords.maxDepth]
    exact (enter_eq_ok_iff.mp entered).1
  cases built with
  | nested front entered => exact within front entered
  | enter front _ entered => exact within front entered
  | _ => cases descends

end Built

/-- In a context that steps from the root built, a name means what the innermost frame that
binds it says, else its latest definition on the way, else the primitive of that name, and it
is bound if and only if it means something.  The context is as deep as there are descents on
the way, each of which stayed within the limit in force there.  One more descent, be it into
the scope of the context or into that of another one built from the root, is refused if and
only if it goes beyond the limit. -/
theorem scoping_of_built {path : List Step} {ctx : Context} (built : Built path ctx) :
    (∀ name found, ctx.find? name = found ↔ Means path name found) ∧
    (∀ name, ctx.isBound name = true ↔ ∃ v, ctx.find? name = some v) ∧
    ctx.depth = descents path ∧
    (∀ later step earlier, path = later ++ step :: earlier → step.isDescent = true →
      descents earlier + 1 ≤ limitOn earlier) ∧
    (∀ fault, ctx.nested = .error fault ↔
      limitOn path < descents path + 1 ∧ fault = .recursionLimit (limitOn path)) ∧
    ∀ source other, Built source other → ∀ fault, ctx.enter other.scope = .error fault ↔
      limitOn path < descents path + 1 ∧ fault = .recursionLimit (limitOn path) := by
  have accords := built.accords
  have refused (scope : Scope Value) (fault : Fault) : ctx.enter scope = .error fault ↔
      limitOn path < descents path + 1 ∧ fault = .recursionLimit (limitOn path) := by
    rw [enter_eq_error_iff, accords.depth, accords.maxDepth]
  refine ⟨fun name found => accords.find?_eq_iff, ?_, accords.depth, ?_, refused ctx.scope,
    fun _ other _ => refused other.scope⟩
  · intro name
    rw [isBound_iff, Option.isSome_iff_exists]
  · intro later step earlier divided descends
    subst divided
    obtain ⟨before, led⟩ := built.exists_earlier
    exact led.descents_lt_of_isDescent descends

/-- A context that is entered with a scope from elsewhere: the last binding there counts,
and what is defined there does not. -/
theorem scoping_of_built_entered :
    let frame := [("y", Value.string "first"), ("y", .string "last")]
    let path : List Step :=
      [.enter [.extend frame, .define "z" (.bool true)], .define "y" (.bool false),
        .withMaxDepth 1]
    ∃ ctx, Built path ctx ∧ ctx.find? "y" = some (.string "last") ∧ ctx.find? "z" = none ∧
      ctx.isBound "z" = false ∧ ctx.depth = 1 ∧
      ctx.nested = .error (.recursionLimit 1) := by
  intro frame path
  have source : Built [.extend frame, .define "z" (.bool true)] _ :=
    .extend frame (.define "z" (.bool true) .root)
  have receiver : Built [.define "y" (.bool false), .withMaxDepth 1] _ :=
    .define "y" (.bool false) (.withMaxDepth 1 .root)
  have built : Built path _ := .enter receiver source rfl
  obtain ⟨means, bound, depth, -, refused, -⟩ := scoping_of_built built
  have last : Means path "y" (some (.string "last")) :=
    @Means.localValue _ _ [] [] [("y", .string "first")] [] _ rfl nofun nofun
  have missed : ∀ around ∈ framesOf path, Scope.Misses "z" around := by
    intro around member binding bound
    have around_eq : around = frame := List.mem_singleton.mp member
    simp only [around_eq, frame, List.mem_cons, List.not_mem_nil, or_false] at bound
    rcases bound with rfl | rfl <;> decide
  have undefined : ∀ w, .define "z" w ∉ path := by
    intro w defined
    simp [path] at defined
  have unnamed : ∀ p : Primitive, p.name ≠ "z" := by
    intro p
    cases p <;> decide
  have nothing := (means "z" none).mpr (.unbound missed undefined unnamed)
  have notBound := mt (bound "z").mp (by rw [nothing]; nofun)
  exact ⟨_, built, (means _ _).mpr last, nothing, Bool.eq_false_iff.mpr notBound, depth,
    (refused _).mpr ⟨by decide, rfl⟩⟩

end Context

end EffectLisp
