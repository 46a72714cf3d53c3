import EffectLisp.Proofs.Text.Quoted
import EffectLisp.Proofs.Text.Span
import EffectLisp.Token.Lexer

/-!
# Lexing piece by piece

`lexAt` reads the tokens of a text that starts at some byte offset.  What it
gives for a text that begins with a separator or with a token is told by what it
gives for the rest, so a written text is lexed by going through its pieces.
-/

namespace EffectLisp.Token

/-- The tokens of characters that start at a byte offset. -/
def lexAt (offset : Nat) (chars : List Char) :
    Except LexError (List Lexeme) :=
  lexFrom [] (skipTrivia offset chars).1 (skipTrivia offset chars).2

theorem lex_eq_lexAt (text : String) : lex text = lexAt 0 text.toList := rfl

/-- A spelling that is lexed as one atom. -/
structure IsAtom (spelling : List Char) : Prop where
  nonempty : spelling ≠ []
  plain : ∀ c ∈ spelling, isDelimiter c = false

/-- An atom ends where the text does or where a delimiter follows. -/
abbrev AtomEnds (rest : List Char) : Prop :=
  Text.StopsAt (!isDelimiter ·) rest

private theorem foldl_utf8Size (chars : List Char) (count : Nat) :
    chars.foldl (fun count c => count + c.utf8Size) count =
      count + byteCount chars := by
  induction chars generalizing count with
  | nil => rfl
  | cons c chars induction =>
      rw [byteCount, List.foldl_cons, List.foldl_cons, induction, induction]
      omega

@[simp] theorem byteCount_nil : byteCount [] = 0 := rfl

@[simp] theorem byteCount_cons (c : Char) (chars : List Char) :
    byteCount (c :: chars) = c.utf8Size + byteCount chars := by
  rw [byteCount, List.foldl_cons, foldl_utf8Size]
  omega

@[simp] theorem byteCount_append (front rest : List Char) :
    byteCount (front ++ rest) = byteCount front + byteCount rest := by
  rw [byteCount, List.foldl_append, foldl_utf8Size]
  rfl

theorem length_le_byteCount (chars : List Char) : chars.length ≤ byteCount chars := by
  induction chars with
  | nil => exact Nat.le_refl 0
  | cons c chars induction =>
      have positive := Char.utf8Size_pos c
      rw [List.length_cons, byteCount_cons]
      omega

theorem utf8ByteSize_ofList (chars : List Char) :
    (String.ofList chars).utf8ByteSize = byteCount chars := by
  induction chars with
  | nil => rfl
  | cons c chars induction =>
      rw [String.ofList_cons, String.utf8ByteSize_append, String.utf8ByteSize_singleton,
        induction, byteCount_cons]

theorem utf8ByteSize_eq (text : String) : text.utf8ByteSize = byteCount text.toList := by
  rw [← utf8ByteSize_ofList, String.ofList_toList]

theorem isDelimiter_of_isSeparator
    {c : Char} (separates : isSeparator c = true) : isDelimiter c = true := by
  simp only [isSeparator, Bool.or_eq_true, decide_eq_true_eq] at separates
  rcases separates with ((rfl | rfl) | rfl) | rfl <;> decide

theorem skipTrivia_separator
    {c : Char} (separates : isSeparator c = true) (offset : Nat) (chars : List Char) :
    skipTrivia offset (c :: chars) = skipTrivia (offset + c.utf8Size) chars := by
  rw [skipTrivia, if_pos separates]

theorem skipTrivia_comment
    {chars text rest : List Char} (found : comment? chars = some (text, rest))
    (offset : Nat) :
    skipTrivia offset (';' :: chars) =
      skipTrivia (offset + ';'.utf8Size + byteCount text) rest := by
  rw [skipTrivia, if_neg (by decide), if_pos rfl]
  split
  · next other after result =>
      rw [found] at result
      cases result
      rfl
  · next result =>
      rw [found] at result
      cases result

/-- A character that is no separator and starts no comment is not skipped. -/
theorem skipTrivia_of_plain
    {c : Char} (plain : isSeparator c = false) (noComment : c ≠ ';')
    (offset : Nat) (chars : List Char) :
    skipTrivia offset (c :: chars) = (offset, c :: chars) := by
  rw [skipTrivia, if_neg (by simp [plain]), if_neg noComment]

/-- The spelling is that of the token, and the rest does not go on with it. -/
inductive Spells : Token → List Char → List Char → Prop where
  | opening (rest : List Char) : Spells .opening ['('] rest
  | closing (rest : List Char) : Spells .closing [')'] rest
  | quoteMark (rest : List Char) : Spells .quoteMark ['\''] rest
  | literal {inside text rest : List Char} :
      Text.untilQuote (inside ++ '"' :: rest) = some (inside, rest) →
      Text.decode? inside = some text →
      Spells (.literal (String.ofList text)) ('"' :: (inside ++ ['"'])) rest
  | atom {spelling rest : List Char} :
      IsAtom spelling → AtomEnds rest →
      Spells (.atom (String.ofList spelling)) spelling rest

theorem token?_of_atom
    {spelling rest : List Char} (atom : IsAtom spelling) (ends : AtomEnds rest)
    (offset : Nat) :
    token? offset (spelling ++ rest) =
      .ok (.atom (String.ofList spelling), spelling, rest) := by
  obtain ⟨nonempty, plain⟩ := atom
  cases spelling with
  | nil => exact absurd rfl nonempty
  | cons c spelling =>
      have head := plain c (by simp)
      have tail : ∀ d ∈ spelling, (!isDelimiter d) = true := fun d member => by
        simp [plain d (by simp [member])]
      have taken := Text.takeWhile_append_of_stopsAt tail ends
      have dropped := Text.dropWhile_append_of_stopsAt tail ends
      rw [List.cons_append, token?, head, taken, dropped]
      · rfl
      all_goals
        rintro rfl
        exact absurd head (by decide)

theorem Spells.token?_eq
    {token : Token} {spelling rest : List Char}
    (spells : Spells token spelling rest) (offset : Nat) :
    token? offset (spelling ++ rest) = .ok (token, spelling, rest) := by
  cases spells with
  | opening => rfl
  | closing => rfl
  | quoteMark => rfl
  | @literal inside text _ split decoded =>
      have found : literal? offset (inside ++ '"' :: rest) =
          .ok (String.ofList text, inside ++ ['"'], rest) := by
        simp [literal?, split, decoded]
      simp [token?, found, bind, Except.bind, pure, Except.pure]
  | atom atom ends => exact token?_of_atom atom ends offset

theorem literal?_inversion
    {offset : Nat} {chars spelling rest : List Char} {text : String}
    (found : literal? offset chars = .ok (text, spelling, rest)) :
    ∃ inside decoded,
      Text.untilQuote chars = some (inside, rest) ∧
        Text.decode? inside = some decoded ∧
        spelling = inside ++ ['"'] ∧ text = String.ofList decoded := by
  unfold literal? at found
  split at found
  · cases found
  · next inside after split =>
      split at found
      · cases found
      · next decoded decoding =>
          cases found
          exact ⟨inside, decoded, split, decoding, rfl, rfl⟩

theorem Spells.nonempty
    {token : Token} {spelling rest : List Char}
    (spells : Spells token spelling rest) : spelling ≠ [] := by
  cases spells with
  | atom atom _ => exact atom.nonempty
  | _ => simp

/-- Reading on after a token there is less text. -/
theorem Spells.length_skipTrivia_lt
    {token : Token} {spelling rest : List Char}
    (spells : Spells token spelling rest) (offset : Nat) :
    (skipTrivia offset rest).2.length < (spelling ++ rest).length := by
  have remaining := length_skipTrivia_le offset rest
  have positive := List.length_pos_iff.mpr spells.nonempty
  rw [List.length_append]
  omega

/-- A token that is found spells a piece of the text, up to the rest. -/
theorem Spells.of_token?
    {offset : Nat} {chars spelling rest : List Char} {token : Token}
    (found : token? offset chars = .ok (token, spelling, rest)) :
    chars = spelling ++ rest ∧ Spells token spelling rest := by
  refine ⟨(token?_eq_ok found).1, ?_⟩
  unfold token? at found
  split at found
  · cases found
  · cases found
    exact .opening _
  · cases found
    exact .closing _
  · cases found
    exact .quoteMark _
  · next inside =>
      cases result : literal? offset inside with
      | error error => simp [result, bind, Except.bind] at found
      | ok parts =>
          obtain ⟨text, body, after⟩ := parts
          simp only [result, bind, Except.bind, pure, Except.pure] at found
          cases found
          obtain ⟨_, _, split, decoding, rfl, rfl⟩ := literal?_inversion result
          rw [Text.untilQuote_eq_some split] at split
          exact .literal split decoding
  · next c tail _ _ _ _ =>
      split at found
      · split at found <;> cases found
      · next plain =>
          cases found
          refine .atom ⟨by simp, ?_⟩ (Text.stopsAt_dropWhile _ _)
          intro d member
          rcases List.mem_cons.mp member with rfl | inTail
          · simpa using plain
          · simpa using List.all_eq_true.mp List.all_takeWhile d inTail

/-- A token begins with a character that is not skipped. -/
theorem Spells.head
    {token : Token} {spelling rest : List Char}
    (spells : Spells token spelling rest) :
    ∃ c tail, spelling = c :: tail ∧ isSeparator c = false ∧ c ≠ ';' := by
  cases spells with
  | opening => exact ⟨'(', [], rfl, rfl, by decide⟩
  | closing => exact ⟨')', [], rfl, rfl, by decide⟩
  | quoteMark => exact ⟨'\'', [], rfl, rfl, by decide⟩
  | literal => exact ⟨'"', _, rfl, rfl, by decide⟩
  | atom atom ends =>
      obtain ⟨nonempty, plain⟩ := atom
      cases spelling with
      | nil => exact absurd rfl nonempty
      | cons c tail =>
          have head := plain c (by simp)
          refine ⟨c, tail, rfl, ?_, ?_⟩
          · rw [← Bool.not_eq_true]
            intro separates
            rw [isDelimiter_of_isSeparator separates] at head
            cases head
          · rintro rfl
            exact absurd head (by decide)

theorem Spells.skipTrivia_eq
    {token : Token} {spelling rest : List Char}
    (spells : Spells token spelling rest) (offset : Nat) :
    skipTrivia offset (spelling ++ rest) = (offset, spelling ++ rest) := by
  obtain ⟨c, tail, rfl, plain, noComment⟩ := spells.head
  exact skipTrivia_of_plain plain noComment offset (tail ++ rest)

@[simp] theorem lexFrom_nil (done : List Lexeme) (offset : Nat) :
    lexFrom done offset [] = .ok done.reverse := by
  simp [lexFrom]

theorem lexFrom_error
    {offset : Nat} {chars : List Char} {error : LexError}
    (nonempty : chars ≠ []) (found : token? offset chars = .error error)
    (done : List Lexeme) :
    lexFrom done offset chars = .error error := by
  rw [lexFrom, if_neg nonempty]
  split
  · next other result =>
      rw [found] at result
      exact congrArg Except.error (Except.error.inj result).symm
  · next result =>
      rw [found] at result
      cases result

theorem Spells.lexFrom_eq
    {token : Token} {spelling rest : List Char}
    (spells : Spells token spelling rest) (done : List Lexeme) (offset : Nat) :
    lexFrom done offset (spelling ++ rest) =
      lexFrom (⟨token, offset⟩ :: done)
        (skipTrivia (offset + byteCount spelling) rest).1
        (skipTrivia (offset + byteCount spelling) rest).2 := by
  have found := spells.token?_eq offset
  rw [lexFrom, if_neg (by simp [spells.nonempty])]
  split
  · next result =>
      rw [found] at result
      cases result
  · next result =>
      rw [found] at result
      cases result
      rfl

/-- The lexemes that are read already only stand in front of the others. -/
theorem lexFrom_eq_map (done : List Lexeme) (offset : Nat) (chars : List Char) :
    lexFrom done offset chars =
      (lexFrom [] offset chars).map (done.reverse ++ ·) := by
  by_cases empty : chars = []
  · simp [empty, Except.map]
  · cases found : token? offset chars with
    | error error =>
        rw [lexFrom_error empty found, lexFrom_error empty found]
        rfl
    | ok parts =>
        obtain ⟨token, spelling, rest⟩ := parts
        obtain ⟨whole, spells⟩ := Spells.of_token? found
        have shorter := spells.length_skipTrivia_lt (offset + byteCount spelling)
        rw [whole, spells.lexFrom_eq, spells.lexFrom_eq, lexFrom_eq_map (_ :: done),
          lexFrom_eq_map [_]]
        cases lexFrom [] (skipTrivia (offset + byteCount spelling) rest).1
            (skipTrivia (offset + byteCount spelling) rest).2 with
        | error error => rfl
        | ok lexemes => simp [Except.map]
termination_by chars.length
decreasing_by all_goals exact whole ▸ shorter

/-- Text without trivia in front, as tokens with trivia between them. -/
inductive Lexed : Nat → List Char → List Lexeme → Prop where
  | nil (offset : Nat) : Lexed offset [] []
  | cons {token : Token} {spelling rest : List Char} {offset : Nat}
      {lexemes : List Lexeme} :
      Spells token spelling rest →
      Lexed (skipTrivia (offset + byteCount spelling) rest).1
        (skipTrivia (offset + byteCount spelling) rest).2 lexemes →
      Lexed offset (spelling ++ rest) (⟨token, offset⟩ :: lexemes)

theorem Lexed.of_lexFrom
    {offset : Nat} {chars : List Char} {lexemes : List Lexeme}
    (lexed : lexFrom [] offset chars = .ok lexemes) :
    Lexed offset chars lexemes := by
  by_cases empty : chars = []
  · subst empty
    rw [lexFrom_nil] at lexed
    cases lexed
    exact .nil offset
  · cases found : token? offset chars with
    | error error =>
        rw [lexFrom_error empty found] at lexed
        cases lexed
    | ok parts =>
        obtain ⟨token, spelling, rest⟩ := parts
        obtain ⟨whole, spells⟩ := Spells.of_token? found
        have shorter := spells.length_skipTrivia_lt (offset + byteCount spelling)
        rw [whole, spells.lexFrom_eq, lexFrom_eq_map] at lexed
        cases later : lexFrom [] (skipTrivia (offset + byteCount spelling) rest).1
            (skipTrivia (offset + byteCount spelling) rest).2 with
        | error error =>
            rw [later] at lexed
            cases lexed
        | ok lexemes =>
            rw [later] at lexed
            cases lexed
            rw [whole]
            exact .cons spells (Lexed.of_lexFrom later)
termination_by chars.length
decreasing_by exact whole ▸ shorter

/-- An atom has a spelling that is lexed as one atom; of other tokens nothing is
asked. -/
def WellSpelled : Token → Prop
  | .atom spelling => IsAtom spelling.toList
  | _ => True

theorem Spells.wellSpelled
    {token : Token} {spelling rest : List Char}
    (spells : Spells token spelling rest) : token.WellSpelled := by
  cases spells with
  | atom atom _ =>
      rw [WellSpelled, String.toList_ofList]
      exact atom
  | _ => trivial

theorem Lexed.wellSpelled
    {offset : Nat} {chars : List Char} {lexemes : List Lexeme}
    (lexed : Lexed offset chars lexemes) :
    ∀ lexeme ∈ lexemes, lexeme.token.WellSpelled := by
  induction lexed with
  | nil => simp
  | cons spells _ induction =>
      intro lexeme member
      rcases List.mem_cons.mp member with rfl | later
      · exact spells.wellSpelled
      · exact induction lexeme later

/-- What the lexer finds is well spelled. -/
theorem wellSpelled_of_lex
    {text : String} {lexemes : List Lexeme} (lexed : lex text = .ok lexemes) :
    ∀ lexeme ∈ lexemes, lexeme.token.WellSpelled :=
  (Lexed.of_lexFrom lexed).wellSpelled

@[simp] theorem lexAt_nil (offset : Nat) : lexAt offset [] = .ok [] := by
  simp [lexAt, skipTrivia]

theorem lexAt_separator
    {c : Char} (separates : isSeparator c = true) (offset : Nat) (chars : List Char) :
    lexAt offset (c :: chars) = lexAt (offset + c.utf8Size) chars := by
  rw [lexAt, skipTrivia_separator separates, lexAt]

/-- The first token, and then the tokens of the rest. -/
theorem Spells.lexAt_eq
    {token : Token} {spelling rest : List Char}
    (spells : Spells token spelling rest) (offset : Nat) :
    lexAt offset (spelling ++ rest) =
      (lexAt (offset + byteCount spelling) rest).map (⟨token, offset⟩ :: ·) := by
  rw [lexAt, spells.skipTrivia_eq, spells.lexFrom_eq, lexFrom_eq_map]
  rfl

end EffectLisp.Token
