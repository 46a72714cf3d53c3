import EffectLisp.Proofs.Text.Quoted

/-!
# The pieces of a literal

Read from left to right, a text is made of escape pairs, each a backslash and the
character after it, and of other characters that stand alone.  A literal ends at the first
quote that stands alone.  If the letters of all pairs before it are those of an escape,
then what is before it stands for a text.
-/

namespace EffectLisp.Text

inductive Piece where
  | plain (c : Char)
  /-- A backslash and the letter after it. -/
  | pair (letter : Char)
  deriving DecidableEq, Repr

def Piece.chars : Piece → List Char
  | plain c => [c]
  | pair letter => ['\\', letter]

/-- The character that the piece stands for in a literal. -/
def Piece.meaning? : Piece → Option Char
  | plain c => some c
  | pair letter => escapeMeaning? letter

/-- The letters of the legal escape pairs. -/
def escapeLetters : List Char :=
  ['\\', '"', 'n', 't', 'r']

/-- The pieces of a text; a backslash at its end stands alone. -/
def pieces : List Char → List Piece
  | [] => []
  | '\\' :: letter :: rest => .pair letter :: pieces rest
  | c :: rest => .plain c :: pieces rest

theorem exists_escapeMeaning {letter : Char} (legal : letter ∈ escapeLetters) :
    ∃ c, escapeMeaning? letter = some c := by
  simp only [escapeLetters, List.mem_cons, List.not_mem_nil, or_false] at legal
  rcases legal with rfl | rfl | rfl | rfl | rfl <;> exact ⟨_, rfl⟩

theorem flatMap_chars_pieces (chars : List Char) :
    (pieces chars).flatMap Piece.chars = chars := by
  fun_induction pieces chars with
  | case1 => rfl
  | case2 letter rest induction => rw [List.flatMap_cons, induction]; rfl
  | case3 c rest _ induction => rw [List.flatMap_cons, induction]; rfl

theorem pieces_cons
    {c : Char} {rest : List Char} (alone : ∀ letter tail, c = '\\' → rest ≠ letter :: tail) :
    pieces (c :: rest) = .plain c :: pieces rest := by
  rw [pieces]
  rintro letter tail rfl rfl
  exact alone letter tail rfl rfl

/-- A quote that no backslash escapes is one that stands alone. -/
theorem isSome_untilQuoteFrom_iff (seen chars : List Char) :
    (untilQuoteFrom seen chars).isSome = true ↔ .plain '"' ∈ pieces chars := by
  fun_induction untilQuoteFrom seen chars with
  | case1 => simp [pieces]
  | case2 seen rest =>
      rw [pieces_cons (by rintro _ _ ⟨⟩)]
      simp
  | case3 seen escaped rest induction =>
      rw [induction, pieces, List.mem_cons]
      simp
  | case4 seen c rest notQuote alone induction =>
      rw [induction, pieces_cons alone, List.mem_cons]
      constructor
      · exact .inr
      · rintro (same | later)
        · exact absurd (Piece.plain.inj same).symm notQuote
        · exact later

theorem isSome_untilQuote_iff (chars : List Char) :
    (untilQuote chars).isSome = true ↔ .plain '"' ∈ pieces chars :=
  isSome_untilQuoteFrom_iff [] chars

/-- Up to the first quote that stands alone a text is divided into pieces and the rest. -/
theorem eq_append_of_pieces
    {chars : List Char} {before after : List Piece}
    (divided : pieces chars = before ++ .plain '"' :: after) :
    chars = before.flatMap Piece.chars ++ '"' :: after.flatMap Piece.chars := by
  have whole := flatMap_chars_pieces chars
  rw [divided, List.flatMap_append, List.flatMap_cons] at whole
  exact whole.symm

/-- Legal pieces before the first quote are the inside of a literal, which stands for what
the pieces mean. -/
theorem unescapes_of_pieces
    {chars : List Char} {before after : List Piece}
    (divided : pieces chars = before ++ .plain '"' :: after) (first : .plain '"' ∉ before)
    (legal : ∀ letter, .pair letter ∈ before → letter ∈ escapeLetters) :
    Unescapes (before.flatMap Piece.chars) (before.filterMap Piece.meaning?) := by
  fun_induction pieces chars generalizing before with
  | case1 => simp at divided
  | case2 letter rest induction =>
      cases before with
      | nil => cases divided
      | cons piece before =>
          obtain ⟨rfl, later⟩ := List.cons.inj divided
          obtain ⟨c, meaning⟩ := exists_escapeMeaning (legal letter List.mem_cons_self)
          have means : (Piece.pair letter).meaning? = some c := meaning
          have inner := induction later (fun member => first (List.mem_cons_of_mem _ member))
            fun other member => legal other (List.mem_cons_of_mem _ member)
          rw [List.filterMap_cons_some means]
          exact .pair meaning inner
  | case3 c rest alone induction =>
      cases before with
      | nil => exact .nil
      | cons piece before =>
          obtain ⟨rfl, later⟩ := List.cons.inj divided
          have inner := induction later (fun member => first (List.mem_cons_of_mem _ member))
            fun other member => legal other (List.mem_cons_of_mem _ member)
          have notQuote : c ≠ '"' := by
            rintro rfl
            exact first List.mem_cons_self
          -- A backslash alone is the end of the text, where no quote follows.
          have notBackslash : c ≠ '\\' := by
            rintro rfl
            cases rest with
            | nil => simp [pieces] at later
            | cons letter tail => exact alone letter tail rfl rfl
          exact .plain notQuote notBackslash inner

/-- If no literal ends at the first quote that stands alone, then one of the pairs before it
is not legal. -/
theorem exists_illegal_of_pieces
    {chars : List Char} {before after : List Piece}
    (missing : ∀ inside text rest, Unescapes inside text → chars ≠ inside ++ '"' :: rest)
    (divided : pieces chars = before ++ .plain '"' :: after) (first : .plain '"' ∉ before) :
    ∃ letter, .pair letter ∈ before ∧ letter ∉ escapeLetters := by
  by_cases legal : ∀ letter, .pair letter ∈ before → letter ∈ escapeLetters
  · exact absurd (eq_append_of_pieces divided)
      (missing _ _ _ (unescapes_of_pieces divided first legal))
  · simpa using legal

/-- The text that is made of the pieces. -/
def Piece.spelling (pieces : List Piece) : String :=
  String.ofList (pieces.flatMap Piece.chars)

/-- The text that a literal of the pieces stands for. -/
def Piece.content (pieces : List Piece) : String :=
  String.ofList (pieces.filterMap Piece.meaning?)

end EffectLisp.Text
