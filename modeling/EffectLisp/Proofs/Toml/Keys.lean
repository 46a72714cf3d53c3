import EffectLisp.Toml.Document

/-!
# Keys of a configuration file

No key stands twice in a table while a file is read: a table is changed by giving a missing
key something to stand for, or by replacing in its place what a key stands for.  So a file
that is read gives every key of its own table one value.
-/

namespace EffectLisp.Toml

namespace Entries

/-- No key stands twice in the table. -/
def Distinct (entries : Entries) : Prop :=
  (entries.map Prod.fst).Nodup

theorem not_mem_keys {entries : Entries} {key : String} (missing : entries.find? key = none) :
    key ∉ entries.map Prod.fst := by
  have noEntry := List.find?_eq_none.mp (Option.map_eq_none_iff.mp missing)
  intro member
  obtain ⟨entry, stands, named⟩ := List.mem_map.mp member
  exact noEntry entry stands (decide_eq_true named)

namespace Distinct

variable {entries result : Entries}

theorem add
    (distinct : entries.Distinct) {key : String} (missing : entries.find? key = none)
    (node : Node) : (entries.add key node).Distinct := by
  rw [Distinct, Entries.add, List.map_append, List.nodup_append]
  refine ⟨distinct, by simp, ?_⟩
  intro name member other single
  obtain rfl := List.mem_singleton.mp single
  rintro rfl
  exact not_mem_keys missing member

theorem replace (distinct : entries.Distinct) (key : String) (node : Node) :
    (entries.replace key node).Distinct := by
  have keys : (entries.replace key node).map Prod.fst = entries.map Prod.fst := by
    rw [Entries.replace, List.map_map]
    apply List.map_congr_left
    intro entry _
    by_cases named : entry.1 = key <;> simp [named]
  rw [Distinct, keys]
  exact distinct

/-- On the way to the end of a path only the first table of it is changed here, at one key. -/
theorem update
    {made here : Origin} {change : Origin → Entries → Option Entries} {path : List String}
    (changes : ∀ {here entries result}, Distinct entries → change here entries = some result →
      Distinct result)
    (distinct : entries.Distinct)
    (updated : Entries.update made change path here entries = some result) :
    result.Distinct := by
  cases path with
  | nil => exact changes distinct updated
  | cons key path =>
      rw [Entries.update] at updated
      split at updated
      · next missing =>
          obtain ⟨inner, -, stands⟩ := Option.bind_eq_some_iff.mp updated
          cases stands
          exact distinct.add missing _
      · cases updated
      · cases updated
      · obtain ⟨inner, -, stands⟩ := Option.bind_eq_some_iff.mp updated
        cases stands
        exact distinct.replace key _
      · split at updated
        · cases updated
        · obtain ⟨inner, -, stands⟩ := Option.bind_eq_some_iff.mp updated
          cases stands
          exact distinct.replace key _

theorem put
    (distinct : entries.Distinct) {path : List String} {v : Value}
    (changed : entries.put path v = some result) : result.Distinct := by
  rw [Entries.put] at changed
  split at changed
  · cases changed
  · next key _ =>
      refine distinct.update ?_ changed
      intro here entries result distinct changed
      split at changed
      · cases changed
      · split at changed
        · cases changed
        · next free =>
            cases changed
            exact distinct.add (Option.not_isSome_iff_eq_none.mp free) _

theorem openTable
    (distinct : entries.Distinct) {path : List String}
    (opened : entries.openTable path = some result) : result.Distinct := by
  rw [Entries.openTable] at opened
  split at opened
  · cases opened
  · next key _ =>
      refine distinct.update ?_ opened
      intro here entries result distinct opened
      split at opened
      · next missing =>
          cases opened
          exact distinct.add missing _
      · cases opened
        exact distinct.replace key _
      · cases opened

theorem openElement
    (distinct : entries.Distinct) {path : List String}
    (opened : entries.openElement path = some result) : result.Distinct := by
  rw [Entries.openElement] at opened
  split at opened
  · cases opened
  · next key _ =>
      refine distinct.update ?_ opened
      intro here entries result distinct opened
      split at opened
      · next missing =>
          cases opened
          exact distinct.add missing _
      · cases opened
        exact distinct.replace key _
      · cases opened

theorem putInside
    (distinct : entries.Distinct) {header path : List String} {v : Value}
    (changed : entries.putInside header path v = some result) : result.Distinct :=
  distinct.update (fun distinct changed => distinct.put changed) changed

end Distinct

end Entries

/-- Every line adds its keys to a table without a key that stands twice. -/
theorem distinct_of_lines?
    {steps : Nat} {header : List String} {entries result : Entries} {chars : List Char}
    (distinct : entries.Distinct)
    (read : lines? steps header entries chars = some result) : result.Distinct := by
  induction steps generalizing header entries chars with
  | zero => cases read
  | succ steps ih =>
      rw [lines?] at read
      split at read
      · cases read
        exact distinct
      · obtain ⟨⟨key, rest⟩, -, read⟩ := Option.bind_eq_some_iff.mp read
        obtain ⟨opened, opens, read⟩ := Option.bind_eq_some_iff.mp read
        obtain ⟨rest, -, read⟩ := Option.bind_eq_some_iff.mp read
        exact ih (distinct.openElement opens) read
      · obtain ⟨⟨key, rest⟩, -, read⟩ := Option.bind_eq_some_iff.mp read
        obtain ⟨opened, opens, read⟩ := Option.bind_eq_some_iff.mp read
        obtain ⟨rest, -, read⟩ := Option.bind_eq_some_iff.mp read
        exact ih (distinct.openTable opens) read
      · split at read
        · obtain ⟨rest, -, read⟩ := Option.bind_eq_some_iff.mp read
          exact ih distinct read
        · obtain ⟨⟨key, v, rest⟩, -, read⟩ := Option.bind_eq_some_iff.mp read
          obtain ⟨changed, changes, read⟩ := Option.bind_eq_some_iff.mp read
          obtain ⟨rest, -, read⟩ := Option.bind_eq_some_iff.mp read
          exact ih (distinct.putInside changes) read

theorem keys_values (entries : Entries) :
    (Node.values entries).map Prod.fst = entries.map Prod.fst := by
  induction entries with
  | nil => rfl
  | cons entry entries ih =>
      rw [Node.values, List.map_cons, List.map_cons, ih]

/-- A file that is read gives each of its keys one value. -/
def Parser.DistinctKeys (parse : Parser) : Prop :=
  ∀ text entries, parse text = some entries → (entries.map Prod.fst).Nodup

theorem parse_distinctKeys : Parser.DistinctKeys parse := by
  intro text entries read
  obtain ⟨nodes, lines, stands⟩ := Option.bind_eq_some_iff.mp read
  cases stands
  have empty : Entries.Distinct [] := List.nodup_nil
  rw [keys_values]
  exact distinct_of_lines? empty lines

end EffectLisp.Toml
