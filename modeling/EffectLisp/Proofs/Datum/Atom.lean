import EffectLisp.Datum.Atom
import EffectLisp.Proofs.Number.Spelling
import EffectLisp.Proofs.Token.Lexer
import EffectLisp.Value.Printer

/-!
# Written atoms

Numbers, booleans and readable symbols are written as single atoms, and each of
these atoms spells the value it was written for.
-/

namespace EffectLisp.Datum

open Token (IsAtom isDelimiter)

theorem isDelimiter_of_isDigit {c : Char} (digit : c.isDigit = true) :
    isDelimiter c = false := by
  obtain ⟨lower, upper⟩ := Char.isDigit_iff_toNat.mp digit
  have lower : 48 ≤ c.toNat := lower
  have upper : c.toNat ≤ 57 := upper
  have notBlank : Text.isBlank c = false := by
    rw [← Bool.not_eq_true]
    intro blank
    simp [Text.isBlank, Text.inRanges, Text.blankRanges] at blank
    omega
  rw [← Bool.not_eq_true]
  intro delimits
  simp only [isDelimiter, notBlank, Bool.false_or, Bool.or_eq_true,
    decide_eq_true_eq] at delimits
  rcases delimits with (((rfl | rfl) | rfl) | rfl) | rfl <;>
    exact absurd digit (by decide)

theorem plain_of_all
    {chars : List Char} (plain : chars.all (!isDelimiter ·) = true) :
    ∀ c ∈ chars, isDelimiter c = false := by
  intro c member
  simpa using List.all_eq_true.mp plain c member

theorem isDelimiter_of_isNumeric {c : Char} (numeric : Number.isNumeric c = true) :
    isDelimiter c = false := by
  simp only [Number.isNumeric, Bool.or_eq_true, decide_eq_true_eq] at numeric
  rcases numeric with digit | special
  · exact isDelimiter_of_isDigit digit
  · exact plain_of_all (by decide) c special

theorem isAtom_number (x : Float) : IsAtom (Number.chars x) where
  nonempty := Number.chars_ne_nil x
  plain := fun _ member =>
    isDelimiter_of_isNumeric (Number.isNumeric_of_mem_chars member)

/-- The text of a double is no text of a boolean: it has no number sign. -/
theorem ofAtom_number (x : Float) :
    ofAtom (String.ofList (Number.chars x)) = .number x := by
  have notBool : ∀ b, String.ofList (Number.chars x) ≠ String.ofList ('#' :: b) := by
    intro b equality
    have chars := congrArg String.toList equality
    rw [String.toList_ofList, String.toList_ofList] at chars
    have numeric : Number.isNumeric '#' = true :=
      Number.isNumeric_of_mem_chars (x := x) (by simp [chars])
    exact absurd numeric (by decide)
  rw [ofAtom, if_neg (notBool ['t']), if_neg (notBool ['f']), String.toList_ofList,
    Number.ofChars?_chars]

theorem isAtom_bool (b : Bool) : IsAtom (Value.boolChars b) := by
  cases b <;> exact ⟨by decide, plain_of_all (by decide)⟩

theorem ofAtom_bool (b : Bool) :
    ofAtom (String.ofList (Value.boolChars b)) = .bool b := by
  cases b <;> rfl

/-- An atom that spells a symbol spells the symbol of the same name. -/
theorem ofAtom_of_spellsSymbol {spelling : String}
    (symbol : spellsSymbol spelling = true) :
    ofAtom spelling = .symbol spelling := by
  unfold spellsSymbol at symbol
  unfold ofAtom at symbol ⊢
  split
  · next isTrue => simp [isTrue] at symbol
  · next notTrue =>
      split
      · next isFalse => simp [isFalse] at symbol
      · next notFalse =>
          split
          · next x number => simp [notTrue, notFalse, number] at symbol
          · rfl

theorem spellsSymbol_of_ofAtom {spelling : String}
    (symbol : ofAtom spelling = .symbol spelling) :
    spellsSymbol spelling = true := by
  simp [spellsSymbol, symbol]

/-- A readable symbol is an atom that spells it. -/
theorem isReadableSymbol_iff {name : String} :
    isReadableSymbol name = true ↔
      IsAtom name.toList ∧ ofAtom name = .symbol name := by
  have empty : name.isEmpty = true ↔ name.toList = [] := by
    rw [String.isEmpty_iff, String.toList_eq_nil_iff]
  simp only [isReadableSymbol, Bool.and_eq_true, Bool.not_eq_true', List.all_eq_true,
    ← Bool.not_eq_true, empty]
  constructor
  · intro given
    obtain ⟨⟨nonempty, plain⟩, symbol⟩ := given
    exact ⟨⟨nonempty, by simpa using plain⟩, ofAtom_of_spellsSymbol symbol⟩
  · intro given
    obtain ⟨⟨nonempty, plain⟩, symbol⟩ := given
    exact ⟨⟨nonempty, by simpa using plain⟩, spellsSymbol_of_ofAtom symbol⟩

/-- An atom spells a boolean, a number, or the symbol of its name. -/
theorem ofAtom_cases (spelling : String) :
    (∃ b, ofAtom spelling = .bool b) ∨ (∃ x, ofAtom spelling = .number x) ∨
      ofAtom spelling = .symbol spelling := by
  unfold ofAtom
  split
  · exact .inl ⟨_, rfl⟩
  · split
    · exact .inl ⟨_, rfl⟩
    · split
      · exact .inr (.inl ⟨_, rfl⟩)
      · exact .inr (.inr rfl)

end EffectLisp.Datum
