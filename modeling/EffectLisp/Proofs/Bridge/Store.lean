import EffectLisp.Bridge.Memory

/-!
# Bridges that store files

A bridge stores a file if what is written there is found and read until the next write
there.  It may refuse to write.  A bridge in memory stores every file as long as no rule
decides the replies.
-/

namespace EffectLisp

namespace Bridge

variable {σ : Type} (bridge : Bridge σ) (path : String)

/-- The text is found at the path. -/
def Holds (content : String) (world : σ) : Prop :=
  (bridge.perform (.probe path) world).1 = .value (.bool true) ∧
    (bridge.perform (.read path) world).1 = .value (.string content)

/-- From a world to a world by requests of which none writes to the path. -/
inductive Unwritten : σ → σ → Prop where
  | refl (world : σ) : Unwritten world world
  | perform {world later : σ} (effect : Effect) :
      (∀ content mode, effect ≠ .write path content mode) →
      Unwritten (bridge.perform effect world).2 later →
      Unwritten world later

/-- What is written to the path from this world on is there until the next write. -/
def StoresAt (world : σ) : Prop :=
  ∀ content v written,
    bridge.perform (.write path content .truncate) world = (.value v, written) →
      v = .string content ∧
        ∀ later, bridge.Unwritten path written later → bridge.Holds path content later

variable {bridge path}

theorem Unwritten.next
    {world later : σ} (unwritten : bridge.Unwritten path world later) {effect : Effect}
    (elsewhere : ∀ content mode, effect ≠ .write path content mode) :
    bridge.Unwritten path world (bridge.perform effect later).2 := by
  induction unwritten with
  | refl => exact .perform effect elsewhere (.refl _)
  | perform first before _ induction => exact .perform first before induction

end Bridge

namespace Memory

theorem find?_cons (entry : String × String) (table : List (String × String))
    (name : String) :
    find? (entry :: table) name = if entry.1 = name then some entry.2 else find? table name := by
  by_cases same : entry.1 = name <;> simp [find?, same]

theorem find?_insert (name other text : String) (table : List (String × String)) :
    find? (insert name text table) other =
      if name = other then some text else find? table other := by
  induction table with
  | nil => rw [insert, find?_cons]
  | cons entry table induction =>
      rw [insert]
      split
      · next same =>
          rw [find?_cons, find?_cons, same]
          split <;> rfl
      · next different =>
          rw [find?_cons, find?_cons, induction]
          split
          · next found =>
              rw [if_neg (fun same => different (found.trans same.symm))]
          · rfl

section Perform

variable {memory : Memory} (free : memory.rules = [])

include free

theorem perform_of_free (effect : Effect) :
    perform effect memory = answer { memory with log := effect :: memory.log } effect := by
  rw [perform, free]
  rfl

theorem rules_perform (effect : Effect) : (perform effect memory).2.rules = [] := by
  rw [perform_of_free free]
  cases effect with
  | probe => exact free
  | read | fetch =>
      rw [answer]
      split <;> exact free
  | write path content mode => cases mode <;> exact free

theorem files_perform
    {path : String} {effect : Effect}
    (elsewhere : ∀ content mode, effect ≠ .write path content mode) :
    find? (perform effect memory).2.files path = find? memory.files path := by
  rw [perform_of_free free]
  cases effect with
  | probe => rfl
  | read | fetch =>
      rw [answer]
      split <;> rfl
  | write other content mode =>
      have different : other ≠ path := by
        rintro rfl
        exact elsewhere content mode rfl
      cases mode <;> simp [answer, store, find?_insert, different]

theorem files_of_unwritten
    {path : String} {later : Memory} (unwritten : bridge.Unwritten path memory later) :
    later.rules = [] ∧ find? later.files path = find? memory.files path := by
  induction unwritten with
  | refl => exact ⟨free, rfl⟩
  | perform effect elsewhere _ induction =>
      obtain ⟨rules, files⟩ := induction (rules_perform free effect)
      exact ⟨rules, files.trans (files_perform free elsewhere)⟩

theorem holds_of_files
    {path content : String} (held : find? memory.files path = some content) :
    bridge.Holds path content memory := by
  have probe := perform_of_free free (.probe path)
  have read := perform_of_free free (.read path)
  simp only [answer, held] at probe read
  exact ⟨congrArg Prod.fst probe, congrArg Prod.fst read⟩

/-- A bridge in memory without rules stores every file. -/
theorem storesAt_of_free (path : String) : bridge.StoresAt path memory := by
  intro content v written performed
  have answered := (perform_of_free free _).symm.trans performed
  cases answered
  refine ⟨rfl, ?_⟩
  intro later unwritten
  have kept : (store { memory with log := .write path content .truncate :: memory.log }
      path content .truncate).rules = [] := free
  obtain ⟨rules, files⟩ := files_of_unwritten kept unwritten
  apply holds_of_files rules
  rw [files, store, find?_insert, if_pos rfl]

end Perform

end Memory

end EffectLisp
