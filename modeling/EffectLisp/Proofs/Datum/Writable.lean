import EffectLisp.Proofs.Datum.Grammar

/-!
# Writable values

A value can be written inside so many lists if it holds no function, its symbols
are readable, and its own lists stay within the nesting limit.
-/

namespace EffectLisp.Datum

/-- The value can be written inside so many lists. -/
inductive Writable : Nat → Value → Prop where
  | string (depth : Nat) (text : String) : Writable depth (.string text)
  | number (depth : Nat) (x : Float) : Writable depth (.number x)
  | bool (depth : Nat) (b : Bool) : Writable depth (.bool b)
  | symbol (depth : Nat) {name : String} :
      isReadableSymbol name = true → Writable depth (.symbol name)
  | list {depth : Nat} {items : List Value} :
      depth < nestingLimit →
      (∀ item ∈ items, Writable (depth + 1) item) →
      Writable depth (.list items)

theorem write_list
    {depth : Nat} (below : depth < nestingLimit)
    {items : List Value} {inside : List Char}
    (written : writeItems (depth + 1) items = .ok inside) :
    write depth (.list items) = .ok ('(' :: inside) := by
  rw [write, if_neg (by omega), written]
  rfl

mutual

theorem Writable.exists_write
    {depth : Nat} {v : Value} (writable : Writable depth v) :
    ∃ text, write depth v = .ok text := by
  cases v with
  | symbol name =>
      cases writable with
      | symbol _ readable => exact ⟨_, by rw [write, if_pos readable]⟩
  | list items =>
      cases writable with
      | list below each =>
          obtain ⟨inside, written⟩ := exists_writeItems each
          exact ⟨_, write_list below written⟩
  | callable c => cases writable
  | _ => exact ⟨_, rfl⟩

theorem exists_writeItems
    {depth : Nat} {items : List Value} (each : ∀ item ∈ items, Writable depth item) :
    ∃ text, writeItems depth items = .ok text := by
  match items with
  | [] => exact ⟨_, rfl⟩
  | [item] =>
      obtain ⟨chars, written⟩ := (each item (by simp)).exists_write
      exact ⟨_, by rw [writeItems, written]; rfl⟩
  | item :: other :: items =>
      obtain ⟨chars, written⟩ := (each item (by simp)).exists_write
      have later : ∀ item ∈ other :: items, Writable depth item :=
        fun item member => each item (List.mem_cons_of_mem _ member)
      obtain ⟨rest, writtenRest⟩ := exists_writeItems later
      exact ⟨_, by rw [writeItems, written, writtenRest]; rfl⟩

end

mutual

theorem Writable.of_write
    {depth : Nat} {v : Value} {text : List Char} (written : write depth v = .ok text) :
    Writable depth v := by
  cases v with
  | string content => exact .string depth content
  | number x => exact .number depth x
  | bool b => exact .bool depth b
  | symbol name =>
      simp only [write] at written
      split at written
      · next readable => exact .symbol depth readable
      · cases written
  | callable c => cases written
  | list items =>
      simp only [write] at written
      split at written
      · cases written
      · next below =>
          obtain ⟨inside, writtenItems, -⟩ := bind_eq_ok written
          exact .list (by omega) (forall_writable_of_writeItems writtenItems)

theorem forall_writable_of_writeItems
    {depth : Nat} {items : List Value} {text : List Char}
    (written : writeItems depth items = .ok text) :
    ∀ item ∈ items, Writable depth item := by
  match items with
  | [] => simp
  | [item] =>
      obtain ⟨chars, writtenItem, -⟩ := bind_eq_ok written
      simpa using Writable.of_write writtenItem
  | item :: other :: items =>
      obtain ⟨chars, writtenItem, later⟩ := bind_eq_ok written
      obtain ⟨others, writtenOthers, -⟩ := bind_eq_ok later
      exact List.forall_mem_cons.mpr
        ⟨.of_write writtenItem, forall_writable_of_writeItems writtenOthers⟩

end

/-- Exactly the writable values are shown. -/
theorem exists_showValue_iff {v : Value} :
    (∃ text, showValue v = .ok text) ↔ Writable 0 v := by
  constructor
  · intro shown
    obtain ⟨text, shown⟩ := shown
    obtain ⟨chars, written, -⟩ := bind_eq_ok shown
    exact .of_write written
  · intro writable
    obtain ⟨chars, written⟩ := writable.exists_write
    exact ⟨String.ofList chars, by rw [showValue, written]; rfl⟩

end EffectLisp.Datum
