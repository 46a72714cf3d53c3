import EffectLisp.Proofs.Datum.Canonical
import EffectLisp.Proofs.Datum.Equality
import EffectLisp.Proofs.Datum.Nodes
import EffectLisp.Session

/-!
# Printed values

The text of a value for people and the text that is shown for it are made by two different
recursions.  The first knows no limits and refuses nothing, and where the second gives a
text it is the same one.  So a printed value is read back exactly where it can be shown.
-/

namespace EffectLisp.Datum

open Value (charsBefore itemsBefore)

mutual

/-- What is written for a value is what is printed for it, whatever is printed next. -/
theorem charsBefore_of_write
    {depth : Nat} {v : Value} {text : List Char} (written : write depth v = .ok text)
    (rest : List Char) : v.charsBefore rest = text ++ rest := by
  cases v with
  | symbol name =>
      cases Writable.of_write written with
      | symbol _ readable =>
          rw [write, if_pos readable] at written
          cases written
          rfl
  | list items =>
      simp only [write] at written
      split at written
      · cases written
      · obtain ⟨inside, writtenItems, result⟩ := bind_eq_ok written
        cases result
        rw [charsBefore, itemsBefore_of_writeItems writtenItems, List.cons_append]
  | callable c => cases written
  | _ =>
      cases written
      rfl

theorem itemsBefore_of_writeItems
    {depth : Nat} {items : List Value} {text : List Char}
    (written : writeItems depth items = .ok text) (rest : List Char) :
    itemsBefore rest items = text ++ rest := by
  match items with
  | [] =>
      cases written
      rfl
  | [item] =>
      obtain ⟨chars, writtenItem, result⟩ := bind_eq_ok written
      cases result
      rw [itemsBefore, charsBefore_of_write writtenItem, List.append_assoc]
      rfl
  | item :: other :: items =>
      obtain ⟨chars, writtenItem, later⟩ := bind_eq_ok written
      obtain ⟨others, writtenOthers, result⟩ := bind_eq_ok later
      cases result
      rw [itemsBefore, charsBefore_of_write writtenItem,
        itemsBefore_of_writeItems writtenOthers, List.append_assoc]
      rfl

end

theorem display_of_showValue
    {v : Value} {text : String} (shown : showValue v = .ok text) : v.display = text := by
  obtain ⟨chars, written, result⟩ := bind_eq_ok shown
  cases result
  rw [Value.display, charsBefore_of_write written, List.append_nil]

theorem read_display {v : Value} (accepted : ∀ node ∈ nodes 0 v, ¬node.Refused) :
    read v.display = .ok v := by
  obtain ⟨text, shown⟩ := exists_showValue_iff.mpr (writable_iff_nodes.mpr accepted)
  rw [display_of_showValue shown]
  exact read_of_showValue shown

/-- What is read from some text can be shown, and so can what it equals. -/
theorem writable_of_read_equal
    {text : String} {v w : Value} (result : read text = .ok w) (equal : Value.Equal w v) :
    Writable 0 v := by
  obtain ⟨shown, writes⟩ := exists_showValue_iff.mpr (exists_read_iff.mp ⟨text, result⟩)
  obtain ⟨other, otherShown, -⟩ := exists_showValue_of_equal equal writes
  exact exists_showValue_iff.mp ⟨other, otherShown⟩

/-- What is shown for a value is what is printed for it as an outcome, in color or not.  A
printed value is read as one that is equal to it if and only if it holds no function, no
symbol with an unreadable name, and no list at the nesting limit. -/
theorem prints_as_shown (v : Value) (color : Bool) :
    let line := (Outcome.value v).line color
    (∀ text, showValue v = .ok text → v.display = text ∧ line = text) ∧
    ((∀ node ∈ nodes 0 v, ¬node.Refused) →
      ∃ w, read line = .ok w ∧ w = v ∧ (w == v) = true) ∧
    ∀ w, read line = .ok w → (w == v) = true → ∀ node ∈ nodes 0 v, ¬node.Refused := by
  intro line
  refine ⟨?_, ?_, ?_⟩
  · intro text shown
    have printed := display_of_showValue shown
    exact ⟨printed, printed⟩
  · intro accepted
    exact ⟨v, read_display accepted, rfl, v.same_self⟩
  · intro w result same
    exact writable_iff_nodes.mp (writable_of_read_equal result (Value.beq_iff_equal.mp same))

/-- A symbol, a string with escapes, the negative zero, and lists. -/
theorem prints_as_shown_list :
    let v : Value := .list [.symbol "a", .string "\"\n", .list [.number (-0), .list []]]
    let text := "(a \"\\\"\\n\" (-0 ()))"
    showValue v = .ok text ∧ (Outcome.value v).line true = text ∧
      (∀ node ∈ nodes 0 v, ¬node.Refused) ∧ ∃ w, read text = .ok w ∧ (w == v) = true := by
  intro v text
  have shown : showValue v = .ok text := eq_ok_of_toOption (by decide +kernel)
  have accepted : ∀ node ∈ nodes 0 v, ¬node.Refused :=
    writable_iff_nodes.mp (exists_showValue_iff.mp ⟨text, shown⟩)
  obtain ⟨prints, readsBack, onlyThese⟩ := prints_as_shown v true
  obtain ⟨-, line⟩ := prints text shown
  obtain ⟨w, result, -, same⟩ := readsBack accepted
  exact ⟨shown, line, onlyThese w result same, w, line ▸ result, same⟩

end EffectLisp.Datum
