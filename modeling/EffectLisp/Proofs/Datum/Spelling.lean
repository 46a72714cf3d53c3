import EffectLisp.Proofs.Datum.Atom
import EffectLisp.Proofs.Number.Numeral

/-!
# What an atom spells

An atom is a number if it is a name of a number that is not finite or a numeral, a boolean
if it is one of the two texts of booleans, and otherwise the symbol of its own text.
-/

namespace EffectLisp.Datum

open Number (IsSpelling)

variable {spelling : String}

theorem exists_ofChars?_iff :
    (∃ x, Number.ofChars? spelling.toList = some x) ↔ IsSpelling spelling := by
  rw [← Option.isSome_iff_exists, Number.isSome_ofChars?_iff, IsSpelling, List.mem_map]
  simp only [String.toList_inj, exists_eq_right]

theorem ofAtom_of_ofChars? {x : Float} (read : Number.ofChars? spelling.toList = some x) :
    ofAtom spelling = .number x := by
  have notTrue : spelling ≠ "#t" := by
    intro isTrue
    rw [isTrue] at read
    cases read
  have notFalse : spelling ≠ "#f" := by
    intro isFalse
    rw [isFalse] at read
    cases read
  rw [ofAtom, if_neg notTrue, if_neg notFalse, read]

theorem ofAtom_eq_number_iff {x : Float} :
    ofAtom spelling = .number x ↔ Number.ofChars? spelling.toList = some x := by
  constructor
  · intro number
    unfold ofAtom at number
    split at number
    · cases number
    · split at number
      · cases number
      · split at number
        · next y read => cases number; exact read
        · cases number
  · exact ofAtom_of_ofChars?

theorem ofAtom_eq_bool_iff {b : Bool} :
    ofAtom spelling = .bool b ↔ spelling = if b then "#t" else "#f" := by
  constructor
  · intro bool
    unfold ofAtom at bool
    split at bool
    · next isTrue => cases bool; exact isTrue
    · split at bool
      · next isFalse => cases bool; exact isFalse
      · split at bool <;> cases bool
  · intro text
    subst text
    cases b <;> rfl

/-- All that is neither a number nor a boolean is the symbol of its text. -/
theorem ofAtom_eq_symbol_iff {name : String} :
    ofAtom spelling = .symbol name ↔
      name = spelling ∧ ¬IsSpelling spelling ∧ spelling ≠ "#t" ∧ spelling ≠ "#f" := by
  constructor
  · intro symbol
    rcases ofAtom_cases spelling with ⟨b, bool⟩ | ⟨x, number⟩ | own
    · rw [bool] at symbol
      cases symbol
    · rw [number] at symbol
      cases symbol
    · have name_eq : spelling = name := by
        rw [own] at symbol
        cases symbol
        rfl
      refine ⟨name_eq.symm, ?_, ?_, ?_⟩
      · intro spelled
        obtain ⟨x, read⟩ := exists_ofChars?_iff.mpr spelled
        rw [ofAtom_of_ofChars? read] at own
        cases own
      · intro isTrue
        rw [isTrue] at own
        cases own
      · intro isFalse
        rw [isFalse] at own
        cases own
  · intro given
    obtain ⟨rfl, unspelled, notTrue, notFalse⟩ := given
    have unread : Number.ofChars? name.toList = none :=
      Option.eq_none_iff_forall_ne_some.mpr fun x read =>
        unspelled (exists_ofChars?_iff.mp ⟨x, read⟩)
    rw [ofAtom, if_neg notTrue, if_neg notFalse, unread]

/-- A text spells a number if it is one of three names or a numeral.  Of what a reader of
floats takes that knows words besides numerals, one look at the character after the sign
leaves exactly the numerals, so no word spells a number.  Except in the three names a number
has no letter but that of its exponent, and no sign but in front and right after that letter.

An atom is the number that its text spells, the boolean whose text it is, or else the symbol
of the same text. -/
theorem atoms_as_spelled (spelling : String) :
    ((∃ x, Number.ofChars? spelling.toList = some x) ↔ IsSpelling spelling) ∧
    ((∃ x, Number.ofChars? spelling.toList = some x) ↔
      spelling ∈ Number.specialNames ∨
        Number.opensNumeral spelling.toList = true ∧
          (Number.IsWord spelling.toList ∨ Number.IsNumeral spelling.toList)) ∧
    (Number.IsWord spelling.toList → Number.ofChars? spelling.toList = none) ∧
    (∀ x, Number.ofChars? spelling.toList = some x → spelling ∉ Number.specialNames →
      (∀ c ∈ spelling.toList, c.isDigit = true ∨ c ∈ ['+', '-', 'e', 'E', '.']) ∧
      ∀ before c sign after, spelling.toList = before ++ c :: sign :: after →
        sign = '+' ∨ sign = '-' → c = 'e' ∨ c = 'E') ∧
    (∀ x, ofAtom spelling = .number x ↔ Number.ofChars? spelling.toList = some x) ∧
    (∀ b, ofAtom spelling = .bool b ↔ spelling = if b then "#t" else "#f") ∧
    ∀ name, ofAtom spelling = .symbol name ↔
      name = spelling ∧ ¬IsSpelling spelling ∧ spelling ≠ "#t" ∧ spelling ≠ "#f" := by
  refine ⟨exists_ofChars?_iff, ?_, ?_, ?_, fun _ => ofAtom_eq_number_iff,
    fun _ => ofAtom_eq_bool_iff, fun _ => ofAtom_eq_symbol_iff⟩
  · rw [exists_ofChars?_iff, IsSpelling, ← Number.isNumeral_iff_guarded]
  · exact Number.ofChars?_of_isWord
  · intro x read unnamed
    have numeral : Number.IsNumeral spelling.toList :=
      (exists_ofChars?_iff.mp ⟨x, read⟩).resolve_left unnamed
    refine ⟨numeral.digit_or_mark, ?_⟩
    intro before c sign after divided mark
    have follows := numeral.isChain
    rw [divided, List.isChain_append_cons_cons] at follows
    exact follows.2.1 (by simpa [Number.isSignMark] using mark)

/-- A word with a sign, and a numeral with two signs and without a digit before its point. -/
theorem atoms_as_spelled_infinity :
    Number.IsWord "-iNfinity".toList ∧ ofAtom "-iNfinity" = .symbol "-iNfinity" ∧
      Number.IsNumeral "+.5e-3".toList ∧ (∃ x, ofAtom "+.5e-3" = .number x) ∧
      ∀ before c sign after, "+.5e-3".toList = before ++ c :: sign :: after →
        sign = '+' ∨ sign = '-' → c = 'e' ∨ c = 'E' := by
  have word : Number.IsWord "-iNfinity".toList :=
    @Number.IsWord.signed _ "iNfinity".toList .minus (by decide)
  have exponent : Number.IsExponent ['e', '-', '3'] :=
    .present (.inl rfl) .minus (List.cons_ne_nil '3' []) (List.all_eq_true.mp rfl)
  have numeral : Number.IsNumeral "+.5e-3".toList :=
    .signed .plus (@Number.IsUnsigned.pointed [] ['5'] _ nofun (List.all_eq_true.mp rfl)
      (.inr (List.cons_ne_nil '5' [])) exponent)
  obtain ⟨-, -, unread, -, -, -, symbol⟩ := atoms_as_spelled "-iNfinity"
  obtain ⟨read, -, -, signs, number, -, -⟩ := atoms_as_spelled "+.5e-3"
  obtain ⟨x, found⟩ := read.mpr (.inr numeral)
  have unspelled : ¬IsSpelling "-iNfinity" := by
    intro spelled
    obtain ⟨y, other⟩ := exists_ofChars?_iff.mpr spelled
    rw [unread word] at other
    cases other
  exact ⟨word, (symbol _).mpr ⟨rfl, unspelled, by decide, by decide⟩, numeral,
    ⟨x, (number x).mpr found⟩, (signs x found (by decide)).2⟩

end EffectLisp.Datum
