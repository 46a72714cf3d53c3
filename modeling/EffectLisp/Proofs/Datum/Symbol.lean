import EffectLisp.Proofs.Datum.Canonical

/-!
# Readable symbols

A symbol has a readable name if and only if its name is read as the symbol.  So the test of
a name, which looks at its characters and at what it spells as an atom, agrees with the
lexer and the parser on every text, and the reader makes no symbols but readable ones.
-/

namespace EffectLisp.Datum

theorem isReadableSymbol_iff_writable {name : String} :
    isReadableSymbol name = true ↔ Writable 0 (.symbol name) := by
  constructor
  · exact .symbol 0
  · intro writable
    cases writable with
    | symbol _ readable => exact readable

/-- A readable name is its own text. -/
theorem showValue_symbol {name : String} (readable : isReadableSymbol name = true) :
    showValue (.symbol name) = .ok name := by
  have written : write 0 (.symbol name) = .ok name.toList := by
    rw [write, if_pos readable]
  rw [showValue_of_write written, String.ofList_toList]

theorem readAll_of_read {text : String} {v : Value} (result : read text = .ok v) :
    readAll text = .ok [v] := by
  obtain ⟨lexemes, lexed, derives⟩ := read_eq_ok_iff.mp result
  have alone := DerivesItems.cons derives (.nil 0)
  rw [List.append_nil] at alone
  exact readAll_eq_ok_iff.mpr ⟨lexemes, lexed, alone⟩

/-- A name is readable if and only if it is read as the symbol of that name.  Then the
symbol is also all that is in the text, and no other name is read as a symbol from any
text, alone or among other data. -/
theorem isReadableSymbol_iff_read (name : String) :
    (isReadableSymbol name = true ↔ read name = .ok (.symbol name)) ∧
    (isReadableSymbol name = true ↔ readAll name = .ok [.symbol name]) ∧
    (isReadableSymbol name = true ↔ ∃ text, read text = .ok (.symbol name)) ∧
    (isReadableSymbol name = true ↔ ∃ text vs, readAll text = .ok vs ∧ .symbol name ∈ vs) := by
  have reads : isReadableSymbol name = true → read name = .ok (.symbol name) :=
    fun readable => read_of_showValue (showValue_symbol readable)
  have readable_of_mem {text : String} {vs : List Value} (result : readAll text = .ok vs)
      (member : .symbol name ∈ vs) : isReadableSymbol name = true :=
    isReadableSymbol_iff_writable.mpr (writable_of_readAll result _ member)
  have readable_of_read {text : String} (result : read text = .ok (.symbol name)) :
      isReadableSymbol name = true :=
    readable_of_mem (readAll_of_read result) (List.mem_singleton_self _)
  refine ⟨⟨reads, readable_of_read⟩, ⟨?_, ?_⟩, ⟨?_, ?_⟩, ⟨?_, ?_⟩⟩
  · intro readable
    exact readAll_of_read (reads readable)
  · intro result
    exact readable_of_mem result (List.mem_singleton_self _)
  · intro readable
    exact ⟨name, reads readable⟩
  · rintro ⟨text, result⟩
    exact readable_of_read result
  · intro readable
    exact ⟨name, _, readAll_of_read (reads readable), List.mem_singleton_self _⟩
  · rintro ⟨text, vs, result, member⟩
    exact readable_of_mem result member

/-- A sign alone and a second sign spell no number, but a sign in front of a digit does, and
a blank of any kind ends the name. -/
example :
    ["+", "+-1", "nan", "a.b"].all isReadableSymbol = true ∧
      ["", "+1", "#t", "a\u00a0b", "a;b"].any isReadableSymbol = false := by
  decide

end EffectLisp.Datum
